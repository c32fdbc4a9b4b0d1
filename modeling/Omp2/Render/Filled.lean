import Omp2.Render.Lines

/-!
# Filling cluster by cluster and word by word

What is buffered of a run is a segment of its clusters, which are the clusters of the segment, so
what has been counted is the width of the line. Of words this holds when a block of words is as
wide as its words; when it is no wider, no line is too wide as long as the words fit.
-/

namespace Omp2.Render

open Component RichText List

/-! ## Segments of clusters -/

theorem clustersAfter_rest (state : ClusterState) (cs : List Char) :
    graphemeClusters (clustersAfter state cs).2.flatten = (clustersAfter state cs).2 := by
  induction cs generalizing state with
  | nil => rfl
  | cons c cs ih =>
      unfold clustersAfter
      split
      · next next _ => exact ih next
      · rw [flatten_cons, cons_append, clustersAfter_flatten]
        rfl

theorem graphemeClusters_tail {cs : List Char} {first : List Char} {rest : List (List Char)}
    (h : graphemeClusters cs = first :: rest) : graphemeClusters rest.flatten = rest := by
  cases cs with
  | nil => cases h
  | cons c cs =>
      have hrest : (clustersAfter (.opening c) cs).2 = rest := (cons.inj h).2
      rw [← hrest]
      exact clustersAfter_rest (.opening c) cs

/-- The clusters of a segment are the segment. -/
theorem graphemeClusters_segment {cs : List Char} {before segment after : List (List Char)}
    (h : graphemeClusters cs = before ++ segment ++ after) :
    graphemeClusters segment.flatten = segment := by
  induction before generalizing cs with
  | nil =>
      have htake := graphemeClusters_take cs segment.length
      rw [h, nil_append, take_left] at htake
      exact htake
  | cons first before ih =>
      have htail := graphemeClusters_tail h
      exact ih htail

theorem visibleWidth_segment {cs : List Char} {before segment after : List (List Char)}
    (h : graphemeClusters cs = before ++ segment ++ after) :
    visibleWidth segment.flatten = (segment.map graphemeClusterWidth).sum := by
  unfold visibleWidth
  rw [graphemeClusters_segment h]

/-- No cluster is empty. -/
theorem ne_nil_of_mem_graphemeClusters {cs cluster : List Char}
    (h : cluster ∈ graphemeClusters cs) : cluster ≠ [] := by
  have hafter : ∀ (state : ClusterState) (cs : List Char),
      ∀ cluster ∈ (clustersAfter state cs).2, cluster ≠ [] := by
    intro state cs
    induction cs generalizing state with
    | nil => exact fun cluster hcluster => absurd hcluster not_mem_nil
    | cons c cs ih =>
      unfold clustersAfter
      split
      · next next _ => exact ih next
      · intro cluster hcluster
        rcases mem_cons.mp hcluster with rfl | hcluster
        · exact cons_ne_nil _ _
        · exact ih _ cluster hcluster
  cases cs with
  | nil => cases h
  | cons c cs =>
      rcases mem_cons.mp h with rfl | h
      · exact cons_ne_nil _ _
      · exact hafter _ _ cluster h

theorem graphemeClusterWidth_le (cluster : List Char) : graphemeClusterWidth cluster ≤ 2 := by
  unfold graphemeClusterWidth
  split
  · exact Nat.zero_le _
  · split_ifs <;> decide

/-! ## Fillings -/

/-- The styled characters of all lines of a filling. -/
def Filling.styled (f : Filling) : List StyledChar :=
  (f.wrapped ++ [f.line]).flatMap fun line => Render.styled line.runs

theorem Filling.styled_break (f : Filling) : f.break.styled = f.styled := by
  unfold Filling.styled Filling.break
  rw [flatMap_append, flatMap_singleton]
  exact append_nil _

/-- The lines at the end have all characters. -/
theorem Filling.styled_finish (f : Filling) :
    f.finish.flatMap (fun line => Render.styled line.runs) = f.styled := by
  unfold Filling.finish Filling.styled
  split
  · next hempty =>
    have hnothing : Render.styled f.line.runs = [] := by
      unfold Render.styled
      rw [flatMap_eq_nil_iff]
      intro r hr
      have hr := all_eq_true.mp hempty r hr
      rw [String.isEmpty_iff.mp hr]
      rfl
    rw [flatMap_append, flatMap_singleton, hnothing, append_nil]
  · rfl

/-- Filling a line with runs, each of which keeps an invariant and adds its characters. -/
theorem foldl_runs {P : Filling → Prop} {fill : Filling → Run → Filling} {runs : List Run}
    (hstep : ∀ f, ∀ run ∈ runs, P f → EndsOther f.line run.style →
      P (fill f run) ∧ (∀ style, run.style ≠ style → EndsOther (fill f run).line style) ∧
        (fill f run).styled = f.styled ++ styledText run.style run.text.toList)
    (hchain : runs.IsChain fun r r' => r.style ≠ r'.style) {f : Filling} (h : P f)
    (hother : ∀ r ∈ runs.head?, EndsOther f.line r.style) :
    P (runs.foldl fill f) ∧ (runs.foldl fill f).styled = f.styled ++ styled runs ∧
      ∀ style, (runs = [] → EndsOther f.line style) →
        (∀ r ∈ runs.getLast?, r.style ≠ style) → EndsOther (runs.foldl fill f).line style := by
  induction runs generalizing f with
  | nil => exact ⟨h, (append_nil _).symm, fun style hends _ => hends rfl⟩
  | cons run runs ih =>
      obtain ⟨hkept, hends, hstyled⟩ :=
        hstep f run mem_cons_self h (hother run rfl)
      obtain ⟨hnext, hrest⟩ := isChain_cons.mp hchain
      obtain ⟨hinvariant, hmore, hlast⟩ :=
        ih (fun f r hr => hstep f r (mem_cons_of_mem _ hr)) hrest hkept
          fun r hr => hends r.style (hnext r hr)
      refine ⟨hinvariant, ?_, fun style _ hstyle => hlast style (fun hnil => ?_) fun r hr => ?_⟩
      · rw [foldl_cons, hmore, hstyled, append_assoc]
        rfl
      · exact hends style (hstyle run (by rw [hnil]; rfl))
      · refine hstyle r ?_
        rw [getLast?_cons, hr]
        rfl

/-! ## Cluster by cluster -/

/-- The lines so far fit, and the current one is as wide as it has been counted. -/
structure Filled (maxWidth : Nat) (f : Filling) : Prop where
  fits : ∀ line ∈ f.wrapped, line.width ≤ maxWidth
  counted : f.width = f.line.width
  bound : f.width ≤ maxWidth

/-- Between two clusters of a run: the buffer is a segment that ends at the clusters read. -/
structure Buffered (maxWidth : Nat) (style : Style) (read : List (List Char)) (f : Filling)
    (buffer : List Char) : Prop where
  fits : ∀ line ∈ f.wrapped, line.width ≤ maxWidth
  segment : ∃ before segment, read = before ++ segment ∧ buffer = segment.flatten ∧
    f.width = f.line.width + (segment.map graphemeClusterWidth).sum
  bound : f.width ≤ maxWidth
  other : EndsOther f.line style
  some : read ≠ [] → buffer ≠ []

theorem pushSome_buffer {line : RichText} {style : Style} {buffer : List Char}
    (h : EndsOther line style) (hbuffer : ∀ c ∈ buffer, Allowed c) :
    line.pushSome style (String.ofList buffer) = line.withRun style buffer :=
  pushSome_withRun [] h hbuffer

/-- A cluster keeps the buffer a segment and adds its characters. -/
theorem Buffered.step {maxWidth : Nat} {style : Style} {cs : List Char}
    {read rest : List (List Char)} {cluster : List Char} {f : Filling} {buffer : List Char}
    (h : Buffered maxWidth style read f buffer) (htwo : 2 ≤ maxWidth)
    (hclusters : graphemeClusters cs = read ++ cluster :: rest)
    (hallowed : ∀ c ∈ buffer, Allowed c) :
    Buffered maxWidth style (read ++ [cluster])
        (charStep maxWidth style (f, buffer) cluster).1
        (charStep maxWidth style (f, buffer) cluster).2 ∧
      (charStep maxWidth style (f, buffer) cluster).1.styled ++
          styledText style (charStep maxWidth style (f, buffer) cluster).2 =
        f.styled ++ styledText style (buffer ++ cluster) := by
  obtain ⟨before, segment, hread, hbuffer, hwidth⟩ := h.segment
  have hwide := graphemeClusterWidth_le cluster
  have hmem : cluster ∈ graphemeClusters cs := by
    rw [hclusters]
    exact mem_append_right _ mem_cons_self
  have hne := ne_nil_of_mem_graphemeClusters hmem
  unfold charStep
  dsimp only
  split
  · next hbreak =>
    -- the buffer goes to the line, which ends before the cluster
    have hline := pushSome_buffer h.other hallowed
    have hvisible : visibleWidth buffer = (segment.map graphemeClusterWidth).sum := by
      have hsegment : graphemeClusters cs = before ++ segment ++ cluster :: rest := by
        rw [hclusters, hread]
      rw [hbuffer, visibleWidth_segment hsegment]
    refine ⟨⟨?_, ⟨read, [cluster], rfl, by simp, ?_⟩, ?_, endsOther_nil style,
      fun _ => hne⟩, ?_⟩
    · intro line hmem
      rcases mem_append.mp hmem with hmem | hmem
      · exact h.fits line hmem
      · rw [mem_singleton.mp hmem, hline, width_withRun, hvisible, ← hwidth]
        exact h.bound
    · rw [map_singleton, sum_singleton]
      exact (Nat.zero_add _).symm
    · exact Nat.le_trans hwide htwo
    · unfold Filling.styled Filling.break
      dsimp only
      rw [hline, flatMap_append, flatMap_append, flatMap_append,
        flatMap_singleton, flatMap_singleton, flatMap_singleton,
        styled_withRun, styledText_append]
      simp [styled]
  · next hstay =>
    have hroom : f.width + graphemeClusterWidth cluster ≤ maxWidth := by omega
    refine ⟨⟨h.fits, ⟨before, segment ++ [cluster], ?_, ?_, ?_⟩, hroom, h.other, ?_⟩, ?_⟩
    · rw [hread, append_assoc]
    · rw [hbuffer, flatten_append, flatten_singleton]
    · rw [map_append, sum_append, map_singleton, sum_singleton, hwidth,
        Nat.add_assoc]
    · exact fun _ hnil => hne (append_eq_nil_iff.mp hnil).2
    · rfl

/-- The clusters of a run keep the buffer a segment and add their characters. -/
theorem Buffered.run {maxWidth : Nat} {style : Style} {cs : List Char}
    (htwo : 2 ≤ maxWidth) (hcs : ∀ c ∈ cs, Allowed c) (rest : List (List Char))
    {read : List (List Char)} (hclusters : graphemeClusters cs = read ++ rest) {f : Filling}
    {buffer : List Char} (h : Buffered maxWidth style read f buffer) :
    Buffered maxWidth style (read ++ rest) (rest.foldl (charStep maxWidth style) (f, buffer)).1
        (rest.foldl (charStep maxWidth style) (f, buffer)).2 ∧
      (rest.foldl (charStep maxWidth style) (f, buffer)).1.styled ++
          styledText style (rest.foldl (charStep maxWidth style) (f, buffer)).2 =
        f.styled ++ styledText style (buffer ++ rest.flatten) := by
  induction rest generalizing read f buffer with
  | nil =>
      rw [append_nil, flatten_nil, append_nil]
      exact ⟨h, rfl⟩
  | cons cluster rest ih =>
      have hallowed : ∀ c ∈ buffer, Allowed c := by
        obtain ⟨before, segment, hread, hbuffer, _⟩ := h.segment
        intro c hc
        refine hcs c ?_
        rw [← graphemeClusters_flatten cs, hclusters, hread, flatten_append,
          flatten_append, ← hbuffer]
        exact mem_append_left _ (mem_append_right _ hc)
      obtain ⟨hstep, hstyled⟩ := h.step htwo hclusters hallowed
      have hmore := ih (by rw [hclusters, append_assoc, singleton_append]) hstep
      rw [append_assoc, singleton_append] at hmore
      refine ⟨hmore.1, ?_⟩
      rw [foldl_cons, hmore.2, styledText_append, ← append_assoc, hstyled,
        flatten_cons, styledText_append, styledText_append, styledText_append]
      simp only [append_assoc]

/-- A run that is filled cluster by cluster keeps the lines in their width. -/
theorem charRun_spec {maxWidth : Nat} (htwo : 2 ≤ maxWidth) {f : Filling} {run : Run}
    (hrun : AllowedText run.text) (hne : run.text ≠ "") (h : Filled maxWidth f)
    (hother : EndsOther f.line run.style) :
    Filled maxWidth (charRun maxWidth f run) ∧
      (∀ style, run.style ≠ style → EndsOther (charRun maxWidth f run).line style) ∧
      (charRun maxWidth f run).styled = f.styled ++ styledText run.style run.text.toList := by
  have hstart : Buffered maxWidth run.style [] f [] :=
    ⟨h.fits, ⟨[], [], rfl, rfl, h.counted⟩, h.bound, hother, fun hnil => absurd rfl hnil⟩
  obtain ⟨hend, hstyled⟩ := Buffered.run htwo hrun (graphemeClusters run.text.toList) rfl hstart
  rw [nil_append, graphemeClusters_flatten] at hstyled
  rw [nil_append] at hend
  unfold charRun
  generalize (graphemeClusters run.text.toList).foldl (charStep maxWidth run.style) (f, []) =
    state at hend hstyled
  obtain ⟨f', buffer⟩ := state
  dsimp only at hend hstyled
  obtain ⟨before, segment, hread, hbuffer, hwidth⟩ := hend.segment
  have hallowed : ∀ c ∈ buffer, Allowed c := by
    intro c hc
    refine hrun c ?_
    rw [← graphemeClusters_flatten run.text.toList, hread, flatten_append, ← hbuffer]
    exact mem_append_right _ hc
  have hline := pushSome_buffer hend.other hallowed
  have hvisible : visibleWidth buffer = (segment.map graphemeClusterWidth).sum := by
    have hsegment : graphemeClusters run.text.toList = before ++ segment ++ [] := by
      rw [hread, append_nil]
    rw [hbuffer, visibleWidth_segment hsegment]
  have hbuffered : buffer ≠ [] := by
    refine hend.some fun hnil => hne (String.toList_inj.mp ?_)
    rw [← graphemeClusters_flatten run.text.toList, hnil]
    rfl
  dsimp only at hline ⊢
  rw [hline]
  refine ⟨⟨hend.fits, ?_, hend.bound⟩, fun style hstyle => ?_, ?_⟩
  · dsimp only
    rw [width_withRun, hvisible]
    exact hwidth
  · exact EndsOther.withRun (fun hnil => absurd hnil hbuffered) hstyle
  · rw [← hstyled]
    unfold Filling.styled
    dsimp only
    rw [flatMap_append, flatMap_append, flatMap_singleton,
      flatMap_singleton, styled_withRun, append_assoc]

/-- The lines that a tidy line is filled into cluster by cluster. -/
theorem wrapLine_character {maxWidth : Nat} (htwo : 2 ≤ maxWidth) {line : RichText}
    (h : Tidy line) :
    (wrapLine maxWidth .characterWrap line).flatMap (fun line => styled line.runs) =
        styled line.runs ∧
      ∀ filled ∈ wrapLine maxWidth .characterWrap line, filled.width ≤ maxWidth := by
  unfold wrapLine
  split
  · next hfits =>
    exact ⟨flatMap_singleton .., forall_mem_singleton.mpr hfits⟩
  · dsimp only
    have hstart : Filled maxWidth .start :=
      ⟨fun _ hline => absurd hline not_mem_nil, rfl, Nat.zero_le _⟩
    obtain ⟨hfilled, hstyled, _⟩ := foldl_runs
      (fun f run hrun hf hother => charRun_spec htwo (h.allowed run hrun) (h.nonempty run hrun)
        hf hother) h.chain hstart (fun r _ => endsOther_nil r.style)
    refine ⟨?_, fun filled hmem => ?_⟩
    · rw [Filling.styled_finish, hstyled]
      rfl
    · unfold Filling.finish at hmem
      split at hmem
      · exact hfilled.fits filled hmem
      · rcases mem_append.mp hmem with hmem | hmem
        · exact hfilled.fits filled hmem
        · rw [mem_singleton.mp hmem, ← hfilled.counted]
          exact hfilled.bound

/-! ## Word by word -/

/-- The pieces are the whole text. -/
theorem splitInclusive_flatten (p : Char → Bool) (cs : List Char) :
    (splitInclusive p cs).flatten = cs := by
  induction cs with
  | nil => rfl
  | cons c cs ih =>
      unfold splitInclusive
      split
      · rw [flatten_cons, ih, singleton_append]
      · split
        · next hnil =>
          rw [hnil] at ih
          rw [← ih]
          rfl
        · next piece pieces hpieces =>
          rw [hpieces] at ih
          rw [← ih]
          rfl

theorem wordsOf_flatten (run : Run) : (wordsOf run).flatten = run.text.toList :=
  splitInclusive_flatten _ _

/-- No word is empty. -/
theorem ne_nil_of_mem_wordsOf {run : Run} {word : List Char} (h : word ∈ wordsOf run) :
    word ≠ [] := by
  have hpiece : ∀ (cs : List Char), ∀ piece ∈ splitInclusive Text.isWhitespace cs,
      piece ≠ [] := by
    intro cs
    induction cs with
    | nil => exact fun piece hpiece => absurd hpiece not_mem_nil
    | cons c cs ih =>
      intro piece hpiece
      unfold splitInclusive at hpiece
      split at hpiece
      · rcases mem_cons.mp hpiece with rfl | hpiece
        · exact cons_ne_nil _ _
        · exact ih piece hpiece
      · split at hpiece
        · exact mem_singleton.mp hpiece ▸ cons_ne_nil _ _
        · next first rest hrest =>
          rcases mem_cons.mp hpiece with rfl | hpiece
          · exact cons_ne_nil _ _
          · exact ih piece (hrest ▸ mem_cons_of_mem _ hpiece)
  exact hpiece run.text.toList word h

theorem allowed_of_mem_wordsOf {run : Run} {word : List Char} (h : AllowedText run.text)
    (hword : word ∈ wordsOf run) : ∀ c ∈ word, Allowed c := by
  intro c hc
  refine h c ?_
  rw [← wordsOf_flatten]
  exact mem_flatten.mpr ⟨word, hword, hc⟩

/-- Between two words of a run: the line ends with a block of words, and what has been counted for
the block is the sum of the widths of its words. -/
structure Worded (R : Nat → Nat → Prop) (style : Style) (read : List (List Char)) (f : Filling) :
    Prop where
  parts : ∃ before block skipped counted, read = skipped ++ block ∧ EndsOther before style ∧
    f.line = before.withRun style block.flatten ∧
    f.width = counted + (block.map visibleWidth).sum ∧ R before.width counted
  some : read.flatten ≠ [] → ∀ other, style ≠ other → EndsOther f.line other

/-- How the widths of blocks of words of a run compare with the sums over the words. -/
def Blocks (R : Nat → Nat → Prop) (run : Run) : Prop :=
  ∀ before block after, wordsOf run = before ++ block ++ after →
    R (visibleWidth block.flatten) (block.map visibleWidth).sum

/-- A comparison of widths that goes through sums. -/
structure Additive (R : Nat → Nat → Prop) : Prop where
  zero : R 0 0
  add : ∀ {a b a' b'}, R a b → R a' b' → R (a + a') (b + b')

theorem additive_le : Additive (· ≤ ·) :=
  ⟨Nat.le_refl 0, fun h h' => Nat.add_le_add h h'⟩

section Words

variable {R : Nat → Nat → Prop} {maxWidth : Nat} {style : Style}

theorem Worded.line {run : Run} {read rest : List (List Char)} {f : Filling}
    (h : Worded R style read f) (hR : Additive R) (hblocks : Blocks R run)
    (hwords : wordsOf run = read ++ rest) : R f.line.width f.width := by
  obtain ⟨before, block, skipped, counted, hread, _, hline, hwidth, hbefore⟩ := h.parts
  rw [hline, width_withRun, hwidth]
  exact hR.add hbefore (hblocks skipped block rest (by rw [hwords, hread]))

/-- A word after others. -/
theorem Worded.step {read : List (List Char)} {f : Filling} (h : Worded R style read f)
    (hR : Additive R) {word : List Char} (hword : ∀ c ∈ word, Allowed c) (hne : word ≠ []) :
    Worded R style (read ++ [word]) (wordStep maxWidth style f word) ∧
      (wordStep maxWidth style f word).styled = f.styled ++ styledText style word := by
  -- the line to which the word is pushed, with the block on it
  have hpush : ∀ (f : Filling) (before : RichText) (block skipped : List (List Char))
      (counted : Nat), read = skipped ++ block → EndsOther before style →
      f.line = before.withRun style block.flatten →
      f.width = counted + (block.map visibleWidth).sum → R before.width counted →
      Worded R style (read ++ [word])
          { f with line := f.line.push style (String.ofList word)
                   width := f.width + visibleWidth word } ∧
        Filling.styled { f with line := f.line.push style (String.ofList word)
                                width := f.width + visibleWidth word } =
          f.styled ++ styledText style word := by
    intro f before block skipped counted hread hother hline hwidth hbefore
    have hpushed : f.line.push style (String.ofList word) =
        before.withRun style (block ++ [word]).flatten := by
      rw [hline, push_withRun _ hother hword, flatten_append, flatten_singleton]
    refine ⟨⟨⟨before, block ++ [word], skipped, counted, ?_, hother, hpushed, ?_, hbefore⟩, ?_⟩,
      ?_⟩
    · rw [hread, append_assoc]
    · dsimp only
      rw [hwidth, map_append, sum_append, map_singleton, sum_singleton,
        Nat.add_assoc]
    · intro _ other hstyle
      dsimp only
      rw [hpushed]
      refine EndsOther.withRun (fun hnil => absurd ?_ hne) hstyle
      rw [flatten_append, flatten_singleton] at hnil
      exact (append_eq_nil_iff.mp hnil).2
    · unfold Filling.styled
      dsimp only
      rw [flatMap_append, flatMap_append, flatMap_singleton,
        flatMap_singleton, hpushed, hline, styled_withRun, styled_withRun,
        flatten_append, flatten_singleton, styledText_append, append_assoc,
        append_assoc]
  unfold wordStep
  dsimp only
  split
  · obtain ⟨hworded, hstyled⟩ := hpush f.break ⟨[]⟩ [] read 0 (append_nil _).symm
      (endsOther_nil style) rfl rfl hR.zero
    exact ⟨hworded, hstyled.trans (congrArg (· ++ _) f.styled_break)⟩
  · obtain ⟨before, block, skipped, counted, hread, hother, hline, hwidth, hbefore⟩ := h.parts
    exact hpush f before block skipped counted hread hother hline hwidth hbefore

theorem wrapped_wordStep (f : Filling) (word : List Char) :
    (wordStep maxWidth style f word).wrapped =
      if maxWidth < f.width + visibleWidth word ∧ 0 < f.width then f.wrapped ++ [f.line]
      else f.wrapped := by
  unfold wordStep
  dsimp only
  split
  · rfl
  · rfl

theorem width_wordStep (f : Filling) (word : List Char) :
    (wordStep maxWidth style f word).width =
      if maxWidth < f.width + visibleWidth word ∧ 0 < f.width then visibleWidth word
      else f.width + visibleWidth word := by
  unfold wordStep
  dsimp only
  split
  · exact Nat.zero_add _
  · rfl

end Words

/-- The lines so far fit, and the current one is no wider than it has been counted. -/
structure Fits (maxWidth : Nat) (f : Filling) : Prop where
  fits : ∀ line ∈ f.wrapped, line.width ≤ maxWidth
  bound : f.width ≤ maxWidth

/-- A word that fits keeps the lines in their width. -/
theorem Fits.step {maxWidth : Nat} {style : Style} {f : Filling} {word : List Char}
    (h : Fits maxWidth f) (hline : f.line.width ≤ f.width)
    (hword : visibleWidth word ≤ maxWidth) : Fits maxWidth (wordStep maxWidth style f word) := by
  constructor
  · rw [wrapped_wordStep]
    split
    · intro line hmem
      rcases mem_append.mp hmem with hmem | hmem
      · exact h.fits line hmem
      · rw [mem_singleton.mp hmem]
        exact Nat.le_trans hline h.bound
    · exact h.fits
  · rw [width_wordStep]
    split
    · exact hword
    · omega

/-- The words of a run after some of it. -/
theorem Worded.run {R : Nat → Nat → Prop} (hR : Additive R) (maxWidth : Nat) {run : Run}
    (hrun : AllowedText run.text) (rest : List (List Char))
    (hrest : ∀ word ∈ rest, word ∈ wordsOf run) {read : List (List Char)} {f : Filling}
    (h : Worded R run.style read f) :
    Worded R run.style (read ++ rest) (rest.foldl (wordStep maxWidth run.style) f) ∧
      (rest.foldl (wordStep maxWidth run.style) f).styled =
        f.styled ++ styledText run.style rest.flatten := by
  induction rest generalizing read f with
  | nil =>
      rw [append_nil]
      exact ⟨h, (append_nil _).symm⟩
  | cons word rest ih =>
      obtain ⟨hword, hmore⟩ := forall_mem_cons.mp hrest
      obtain ⟨hstep, hstyled⟩ := h.step hR (allowed_of_mem_wordsOf hrun hword)
        (ne_nil_of_mem_wordsOf hword)
      have hmore := ih hmore hstep
      rw [append_assoc, singleton_append] at hmore
      refine ⟨hmore.1, ?_⟩
      rw [foldl_cons, hmore.2, hstyled, flatten_cons, styledText_append,
        append_assoc]

/-- The words of a run that fit keep the lines in their width. -/
theorem Fits.run {maxWidth : Nat} {run : Run} (hrun : AllowedText run.text)
    (hblocks : Blocks (· ≤ ·) run) (hfit : ∀ word ∈ wordsOf run, visibleWidth word ≤ maxWidth)
    (rest : List (List Char)) {read : List (List Char)} (hwords : wordsOf run = read ++ rest)
    {f : Filling} (hworded : Worded (· ≤ ·) run.style read f) (h : Fits maxWidth f) :
    Fits maxWidth (rest.foldl (wordStep maxWidth run.style) f) := by
  induction rest generalizing read f with
  | nil => exact h
  | cons word rest ih =>
      have hmem : word ∈ wordsOf run := by
        rw [hwords]
        exact mem_append_right _ mem_cons_self
      have hone : wordsOf run = read ++ [word] ++ rest := by
        rw [hwords, append_assoc, singleton_append]
      have hline := hworded.line additive_le hblocks hwords
      exact ih hone (hworded.step additive_le (allowed_of_mem_wordsOf hrun hmem)
        (ne_nil_of_mem_wordsOf hmem)).1 (h.step hline (hfit word hmem))

/-- A line is too wide, or the current one is. -/
def Overflows (maxWidth : Nat) (f : Filling) : Prop :=
  (∃ line ∈ f.wrapped, maxWidth < line.width) ∨
    (maxWidth < f.width ∧ f.line.width = f.width)

/-- What is too wide stays too wide. -/
theorem Overflows.step {maxWidth : Nat} {style : Style} {f : Filling} (h : Overflows maxWidth f)
    (word : List Char) : Overflows maxWidth (wordStep maxWidth style f word) := by
  refine .inl ?_
  rw [wrapped_wordStep]
  rcases h with ⟨line, hline, hwide⟩ | ⟨hwide, hcounted⟩
  · split
    · exact ⟨line, mem_append_left _ hline, hwide⟩
    · exact ⟨line, hline, hwide⟩
  · -- any further word ends the current line
    rw [if_pos ⟨by omega, by omega⟩]
    exact ⟨f.line, mem_concat_self, hcounted ▸ hwide⟩

theorem Overflows.words {maxWidth : Nat} {style : Style} (words : List (List Char))
    {f : Filling} (h : Overflows maxWidth f) :
    Overflows maxWidth (words.foldl (wordStep maxWidth style) f) := by
  induction words generalizing f with
  | nil => exact h
  | cons word words ih => exact ih (h.step word)

theorem Overflows.runs {maxWidth : Nat} (runs : List Run) {f : Filling}
    (h : Overflows maxWidth f) : Overflows maxWidth (runs.foldl (wordRun maxWidth) f) := by
  induction runs generalizing f with
  | nil => exact h
  | cons run runs ih => exact ih (h.words (wordsOf run))

/-- A line of empty runs has no width. -/
theorem width_of_isEmpty {line : RichText} (h : line.isEmpty = true) : line.width = 0 := by
  have hruns : ∀ runs : List Run, (∀ run ∈ runs, run.text = "") →
      (runs.map fun run => strVisibleWidth run.text).sum = 0 := by
    intro runs
    induction runs with
    | nil => exact fun _ => rfl
    | cons run runs ih =>
      intro hempty
      obtain ⟨hrun, hrest⟩ := forall_mem_cons.mp hempty
      rw [map_cons, sum_cons, ih hrest, hrun]
      rfl
  exact hruns line.runs fun run hrun => String.isEmpty_iff.mp (all_eq_true.mp h run hrun)

/-- A filling that is too wide has a line that is too wide. -/
theorem Overflows.finish {maxWidth : Nat} {f : Filling} (h : Overflows maxWidth f) :
    ∃ line ∈ f.finish, maxWidth < line.width := by
  unfold Filling.finish
  rcases h with ⟨line, hline, hwide⟩ | ⟨hwide, hcounted⟩
  · split
    · exact ⟨line, hline, hwide⟩
    · exact ⟨line, mem_append_left _ hline, hwide⟩
  · split
    · next hempty =>
      have hzero := width_of_isEmpty hempty
      omega
    · exact ⟨f.line, mem_concat_self, hcounted ▸ hwide⟩

end Omp2.Render
