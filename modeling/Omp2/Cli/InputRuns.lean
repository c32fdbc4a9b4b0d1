import Omp2.Cli.InputReads

/-!
# Runs of the input parser

A run reads bytes and calls the parser at any time. Each call takes a piece from the front of what
is pending, so the pieces of a run tile its stream. On an orderly stream every run in time gives the
events of one read, and what stands between the markers of a paste is in a paste event alone.
-/

namespace Omp2.Cli.Input

open List

/-! ## Calls until there is no event -/

/-- A call that returns an event takes at least one byte. -/
theorem nextFrom_lt (elapsed : Nat) (escaped : Bool) (paste : Option (List UInt8))
    (pending : List UInt8) (h : (nextFrom elapsed escaped paste pending).1 ≠ none) :
    (nextFrom elapsed escaped paste pending).2.pending.length < pending.length := by
  fun_induction nextFrom elapsed escaped paste pending with
  | case1 escaped body pending text rest hscan => exact scanPaste_lt hscan
  | case2 | case3 | case4 | case6 | case7 | case12 | case14 => exact absurd rfl h
  | case5 => exact Nat.one_pos
  | case8 escaped second more hsecond size hend sequence hstart ih
  | case10 escaped second more hsecond size hend sequence hstart hdecode ih =>
      have hlt := ih h
      rw [length_drop] at hlt
      simp only [length_cons]
      omega
  | case9 escaped second more hsecond size hend event sequence hstart hdecode =>
      simp only [length_cons, length_drop]
      omega
  | case11 escaped second more hsecond event p hnext ih =>
      rw [hnext] at ih
      exact Nat.lt_succ_of_lt (ih fun hnone => by cases hnone)
  | case13 => exact Nat.lt_succ_self _
  | case15 escaped first rest =>
      have hsize := Utf8.size_pos first
      simp only [length_cons, length_drop]
      omega
  | case16 escaped first rest hfirst hsingle hlong hstrict ih => exact Nat.lt_succ_of_lt (ih h)

/-- The events of the calls until there is none, with the open paste and the bytes that are left. -/
def drain (paste : Option (List UInt8)) (pending : List UInt8) :
    List Event × Option (List UInt8) × List UInt8 :=
  match _hnext : nextFrom 0 false paste pending with
  | (some event, p) =>
    let (events, rest) := drain p.paste p.pending
    (event :: events, rest)
  | (none, p) => ([], p.paste, p.pending)
termination_by pending.length
decreasing_by
  have hlt := nextFrom_lt 0 false paste pending
  rw [_hnext] at hlt
  exact hlt fun hnone => by cases hnone

theorem drain_some {paste : Option (List UInt8)} {pending : List UInt8} {event : Event} {p : Parser}
    (h : nextFrom 0 false paste pending = (some event, p)) :
    drain paste pending = (event :: (drain p.paste p.pending).1, (drain p.paste p.pending).2) := by
  rw [drain]
  split
  · next heq =>
    rw [h] at heq
    cases heq
    rfl
  · next heq =>
    rw [h] at heq
    cases heq

theorem drain_none {paste : Option (List UInt8)} {pending : List UInt8} {p : Parser}
    (h : nextFrom 0 false paste pending = (none, p)) :
    drain paste pending = ([], p.paste, p.pending) := by
  rw [drain]
  split
  · next heq =>
    rw [h] at heq
    cases heq
  · next heq =>
    rw [h] at heq
    cases heq
    rfl

/-- Where the next call is the same, all calls are. -/
theorem drain_same {paste paste' : Option (List UInt8)} {pending pending' : List UInt8}
    (h : nextFrom 0 false paste pending = nextFrom 0 false paste' pending') :
    drain paste pending = drain paste' pending' := by
  cases hnext : nextFrom 0 false paste' pending' with
  | mk event p =>
      rw [hnext] at h
      cases event with
      | none => rw [drain_none h, drain_none hnext]
      | some event => rw [drain_some h, drain_some hnext]

/-- The events before and after more bytes come. -/
def andThen (events : List Event) (r : List Event × Option (List UInt8) × List UInt8) :
    List Event × Option (List UInt8) × List UInt8 :=
  (events ++ r.1, r.2)

/-- One call before more bytes come changes no event. -/
theorem drain_call {paste : Option (List UInt8)} {pending coming : List UInt8}
    {event : Option Event} {p : Parser} (h : OrderlyIn paste (pending ++ coming))
    (hnext : nextFrom 0 false paste pending = (event, p)) :
    drain paste (pending ++ coming) =
        andThen event.toList (drain p.paste (p.pending ++ coming)) ∧
      OrderlyIn p.paste (p.pending ++ coming) := by
  have hstable := nextFrom_stable coming false paste pending rfl h
  rw [hnext] at hstable
  refine ⟨?_, hstable.orderly⟩
  cases event with
  | none => exact drain_same (hstable.waiting rfl)
  | some event => exact drain_some (hstable.decided event rfl)

/-- The calls before more bytes come change no event. -/
theorem drain_append (paste : Option (List UInt8)) (pending coming : List UInt8)
    (h : OrderlyIn paste (pending ++ coming)) :
    drain paste (pending ++ coming) =
        andThen (drain paste pending).1
          (drain (drain paste pending).2.1 ((drain paste pending).2.2 ++ coming)) ∧
      OrderlyIn (drain paste pending).2.1 ((drain paste pending).2.2 ++ coming) := by
  fun_induction drain paste pending with
  | case1 paste pending event p hnext events rest hrest ih =>
      obtain ⟨hcall, hcoming⟩ := drain_call h hnext
      obtain ⟨hdrain, horderly⟩ := ih hcoming
      rw [hrest] at hdrain horderly
      refine ⟨?_, horderly⟩
      rw [hcall, hdrain]
      rfl
  | case2 paste pending p hnext => exact drain_call h hnext

/-! ## Runs -/

/-- A step of a run: bytes are read, or the parser is called, with the time since the moment of its
pending escape. -/
inductive Step where
  | read (bytes : List UInt8)
  | poll (elapsed : Nat)

/-- The bytes that a run reads. -/
def fed : List Step → List UInt8
  | [] => []
  | .read bytes :: steps => bytes ++ fed steps
  | .poll _ :: steps => fed steps

/-- The events of a run, with the parser after it. -/
def run : Parser → List Step → List Event × Parser
  | p, [] => ([], p)
  | p, .read bytes :: steps => run (feed p bytes) steps
  | p, .poll elapsed :: steps =>
    let (event, p) := next elapsed p
    let (events, p) := run p steps
    (event.toList ++ events, p)

/-- No call of the run times out. -/
def Timely : Parser → List Step → Prop
  | _, [] => True
  | p, .read bytes :: steps => Timely (feed p bytes) steps
  | p, .poll elapsed :: steps =>
    ¬ TimesOut elapsed p.escaped p.paste p.pending ∧ Timely (next elapsed p).2 steps

/-- The bytes that each call of a run takes. -/
def pieces : Parser → List Step → List (List UInt8)
  | _, [] => []
  | p, .read bytes :: steps => pieces (feed p bytes) steps
  | p, .poll elapsed :: steps =>
    let rest := (next elapsed p).2
    p.pending.take (p.pending.length - rest.pending.length) :: pieces rest steps

/-- The calls of a run take each byte once, in order, or leave it pending. -/
theorem pieces_tile (p : Parser) (steps : List Step) :
    (pieces p steps).flatten ++ (run p steps).2.pending = p.pending ++ fed steps := by
  induction steps generalizing p with
  | nil => exact (append_nil _).symm
  | cons step steps ih =>
      cases step with
      | read bytes =>
        have htile := ih (feed p bytes)
        rw [feed, append_assoc] at htile
        exact htile
      | poll elapsed =>
        obtain ⟨taken, htaken⟩ := nextFrom_suffix elapsed p.escaped p.paste p.pending
        have htile := ih (next elapsed p).2
        have hpiece : p.pending.take (p.pending.length - (next elapsed p).2.pending.length) =
            taken := by
          have hlength : p.pending.length = taken.length + (next elapsed p).2.pending.length := by
            rw [← length_append]
            exact congrArg _ htaken.symm
          rw [hlength, Nat.add_sub_cancel, ← htaken, take_left]
        simp only [pieces, run, fed, flatten_cons]
        rw [append_assoc, htile, hpiece, ← append_assoc]
        exact congrArg (· ++ fed steps) htaken

/-- The rest of the calls after a run in time give what is left of the events of one read. -/
theorem run_drain (p : Parser) (steps : List Step) (h : OrderlyIn p.paste (p.pending ++ fed steps))
    (htimely : Timely p steps) :
    drain p.paste (p.pending ++ fed steps) =
      andThen (run p steps).1 (drain (run p steps).2.paste (run p steps).2.pending) := by
  induction steps generalizing p with
  | nil =>
      rw [fed, append_nil]
      rfl
  | cons step steps ih =>
      cases step with
      | read bytes =>
        have hread : p.pending ++ fed (.read bytes :: steps) =
            (feed p bytes).pending ++ fed steps :=
          (append_assoc _ _ _).symm
        rw [hread] at h ⊢
        exact ih (feed p bytes) h htimely
      | poll elapsed =>
        obtain ⟨hevent, hpaste, hpending⟩ :=
          nextFrom_timely elapsed p.escaped p.paste p.pending htimely.1
        obtain ⟨hcall, horderly⟩ := drain_call h (Prod.mk.eta).symm
        rw [← hevent, ← hpaste, ← hpending] at hcall
        rw [← hpaste, ← hpending] at horderly
        have hrest := ih (next elapsed p).2 horderly htimely.2
        refine hcall.trans ?_
        refine (congrArg (andThen _) hrest).trans ?_
        simp only [andThen, run, next, append_assoc]

end Omp2.Cli.Input
