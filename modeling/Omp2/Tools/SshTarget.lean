import Omp2.Library.Shell
import Omp2.Library.TextLines
import Omp2.Render.RichText
import Omp2.Types.Ids

/-!
# Targets of SSH reads

`omp-tools/src/ssh.rs`. The path of a target is percent-decoded and quoted into a script that the
remote shell runs, and the destination and the port are arguments of the client.
-/

namespace Omp2.Tools.Ssh

open Omp2.Shell Omp2.Render

/-- `failure`. -/
def failure (code message : String) : StructuredError :=
  .new code message false

/-- `quote`. -/
def quote (value : List Char) : List Char :=
  '\'' :: value.flatMap (fun c => if c = '\'' then "'\\''".toList else [c]) ++ ['\'']

/-- `Target`. -/
structure Target where
  destination : List Char
  port : Option Nat
  path : List Char

/-! ## The parser -/

/-- `rsplit_once` at a character. -/
def rsplitOnce (c : Char) (text : List Char) : Option (List Char × List Char) :=
  (Text.splitOnce [c] text.reverse).map fun parts => (parts.2.reverse, parts.1.reverse)

/-- `parse::<u16>`. -/
def parseU16 (text : List Char) : Option Nat :=
  let digits := match text with
    | '+' :: digits => digits
    | digits => digits
  if digits = [] ∨ ¬ digits.all Char.isDigit then none
  else
    let n := digits.foldl (fun n c => 10 * n + (c.toNat - '0'.toNat)) 0
    if n < 2 ^ 16 then some n else none

/-- `to_digit` in base 16 of a byte as a character. -/
def hexDigit (b : UInt8) : Option Nat :=
  if 48 ≤ b ∧ b ≤ 57 then some (b.toNat - 48)
  else if 97 ≤ b ∧ b ≤ 102 then some (b.toNat - 87)
  else if 65 ≤ b ∧ b ≤ 70 then some (b.toNat - 55)
  else none

/-- The byte of a percent sign. -/
def percent : UInt8 := 37

/-- The byte of a slash. -/
def slash : UInt8 := 47

/-- The loop over the bytes of a path. -/
def unescape : List UInt8 → Option (List UInt8)
  | [] => some []
  | b :: rest =>
    if b = percent then
      match rest with
      | high :: low :: rest =>
        match hexDigit high, hexDigit low with
        | some high, some low => (unescape rest).map (UInt8.ofNat (high * 16 + low) :: ·)
        | _, _ => none
      | _ => none
    else (unescape rest).map (b :: ·)

/-- The bytes of a text. -/
def utf8 (text : List Char) : List UInt8 :=
  text.flatMap String.utf8EncodeChar

/-- `String::from_utf8`. -/
def fromUtf8 (bytes : List UInt8) : Option (List Char) :=
  bytes.toByteArray.utf8Decode?.map Array.toList

/-- The destination and the port of an authority. -/
def splitAuthority (authority : List Char) :
    Except StructuredError (List Char × Option Nat) :=
  match rsplitOnce ':' authority with
  | none => .ok (authority, none)
  | some (host, port) =>
    match (parseU16 port).filter (0 < ·) with
    | none => .error (failure "ssh_path" "Invalid SSH port")
    | some port => .ok (host, some port)

/-- The characters of a destination. -/
def isDestinationChar (c : Char) : Bool :=
  c.isAlphanum || c ∈ ['.', '-', '_', '@']

/-- The destination is refused. -/
def badDestination (destination : List Char) : Bool :=
  destination.isEmpty || destination.head? = some '-' || 2 < (destination.splitOn '@').length ||
    (destination.splitOn '@').any (fun part => part.isEmpty || part.head? = some '-') ||
    !destination.all isDestinationChar

/-- The path of a target, without its first slash. -/
def parsePath (path : List Char) : Except StructuredError (List Char) :=
  match unescape (utf8 path) with
  | none => .error (failure "ssh_path" "Invalid path percent escape")
  | some decoded =>
    match fromUtf8 (slash :: decoded) with
    | none => .error (failure "ssh_path" "SSH path must be UTF-8")
    | some path =>
      if path.any isControl then
        .error (failure "ssh_path" "Control characters are forbidden in SSH paths")
      else .ok path

/-- `Target::parse`. -/
def Target.parse (target : List Char) : Except StructuredError Target :=
  match Text.splitOnce ['/'] target with
  | none => .error
      (failure "ssh_path" "SSH reads require ssh://[user@]host[:port]/absolute/path")
  | some (authority, path) => do
    let (destination, port) ← splitAuthority authority
    if badDestination destination then .error (failure "ssh_path" "Invalid SSH destination")
    else
      let path ← parsePath path
      return { destination, port, path }

/-! ## The command -/

/-- The script before the path. -/
def scriptHead : List Char :=
  "if test -n x; then printf 'omp2-posix-read-v1\\n'; else exit 65; fi; p=".toList

/-- The script after the path. -/
def scriptTail : List Char :=
  ("; if test -f \"$p\"; then dd if=\"$p\" bs=100001 count=1 2>/dev/null; elif test -d \"$p\"; " ++
    "then LC_ALL=C ls -lap \"$p\"; else printf 'Not a readable regular file or directory' >&2; " ++
    "exit 66; fi").toList

/-- The script of `read`. -/
def script (path : List Char) : List Char :=
  scriptHead ++ quote path ++ scriptTail

/-- The options of the client that are always given. -/
def fixedArguments : List String :=
  ["-T", "-oBatchMode=yes", "-oStrictHostKeyChecking=yes", "-oConnectTimeout=10",
    "-oConnectionAttempts=1", "-oServerAliveInterval=5", "-oServerAliveCountMax=1",
    "-oPermitLocalCommand=no", "-oProxyCommand=none", "-oProxyJump=none", "-oForwardAgent=no",
    "-oClearAllForwardings=yes", "-oControlMaster=no", "-oControlPath=none"]

/-- The arguments of the port. -/
def portArguments : Option Nat → List (List Char)
  | none => []
  | some port => ["-p".toList, Nat.toDigits 10 port]

/-- The arguments of the client in `read`. -/
def arguments (t : Target) : List (List Char) :=
  fixedArguments.map String.toList ++ portArguments t.port ++ [t.destination, script t.path]

/-- What the client does with its arguments: the options, the host, and the command, which it
takes after the options that follow the host. -/
structure Reading where
  options : List Opt
  host : Option (List Char)
  command : List (List Char)
deriving DecidableEq

/-- The client: which of its option letters take an argument, as far as `read` uses them. -/
structure Client where
  takes : Char → Bool
  takes_T : takes 'T' = false
  takes_o : takes 'o' = true
  takes_p : takes 'p' = true

/-- How the client reads its arguments. -/
def Client.reads (client : Client) (args : List (List Char)) : Reading :=
  match options client.takes args with
  | (before, []) => ⟨before, none, []⟩
  | (before, host :: rest) =>
    ⟨before ++ (options client.takes rest).1, some host, (options client.takes rest).2⟩

/-! ## The path -/

/-- What a percent-encoded path stands for. -/
inductive Unescapes : List UInt8 → List UInt8 → Prop where
  | nil : Unescapes [] []
  | plain {b bytes decoded} (hplain : b ≠ percent) (hrest : Unescapes bytes decoded) :
      Unescapes (b :: bytes) (b :: decoded)
  | escape {high low bytes decoded h l} (hhigh : hexDigit high = some h)
      (hlow : hexDigit low = some l) (hrest : Unescapes bytes decoded) :
      Unescapes (percent :: high :: low :: bytes) (UInt8.ofNat (h * 16 + l) :: decoded)

/-- The loop decodes a path. -/
theorem unescapes_of_unescape {bytes decoded : List UInt8} (h : unescape bytes = some decoded) :
    Unescapes bytes decoded := by
  induction hlength : bytes.length using Nat.strongRecOn generalizing bytes decoded with
  | ind length ih =>
      cases bytes with
      | nil =>
        cases h
        exact .nil
      | cons b rest =>
        unfold unescape at h
        split at h
        · next hpercent =>
          subst hpercent
          split at h
          · next high low rest =>
            cases hhigh : hexDigit high with
            | none =>
              rw [hhigh] at h
              cases h
            | some hi =>
              cases hlow : hexDigit low with
              | none =>
                rw [hhigh, hlow] at h
                cases h
              | some lo =>
                rw [hhigh, hlow] at h
                obtain ⟨more, hmore, rfl⟩ := Option.map_eq_some_iff.mp h
                have hshort : rest.length < length := by
                  rw [← hlength]
                  simp
                  omega
                exact .escape hhigh hlow (ih _ hshort hmore rfl)
          · cases h
        · next hplain =>
          obtain ⟨more, hmore, rfl⟩ := Option.map_eq_some_iff.mp h
          have hshort : rest.length < length := by
            rw [← hlength]
            exact Nat.lt_succ_self _
          exact .plain hplain (ih _ hshort hmore rfl)

/-- The bytes of the text that some bytes are. -/
theorem utf8_of_fromUtf8 {bytes : List UInt8} {text : List Char}
    (h : fromUtf8 bytes = some text) : utf8 text = bytes := by
  obtain ⟨chars, hchars, rfl⟩ := Option.map_eq_some_iff.mp h
  have hget : (bytes.toByteArray.utf8Decode?.get (hchars ▸ rfl)).toList.utf8Encode =
      bytes.toByteArray := ByteArray.utf8Encode_get_utf8Decode?
  have hsame : bytes.toByteArray.utf8Decode?.get (hchars ▸ rfl) = chars :=
    Option.get_of_eq_some _ hchars
  rw [hsame, List.utf8Encode] at hget
  have hdata := congrArg (fun bytes : ByteArray => bytes.data.toList) hget
  rw [List.toList_data_toByteArray, List.toList_data_toByteArray] at hdata
  exact hdata

theorem fromUtf8_utf8 (text : List Char) : fromUtf8 (utf8 text) = some text := by
  have hdecode : (utf8 text).toByteArray.utf8Decode? = some text.toArray :=
    List.utf8Decode?_utf8Encode
  unfold fromUtf8
  rw [hdecode, Option.map_some]

/-- A text whose first byte is a slash begins with a slash. -/
theorem head_of_fromUtf8 {bytes : List UInt8} {text : List Char}
    (h : fromUtf8 (slash :: bytes) = some text) : text.head? = some '/' := by
  obtain ⟨chars, hchars, rfl⟩ := Option.map_eq_some_iff.mp h
  have hslash : (slash :: bytes).toByteArray = ['/'].utf8Encode ++ bytes.toByteArray := by
    rw [← List.singleton_append, List.toByteArray_append]
    rfl
  rw [hslash, ByteArray.utf8Decode?_utf8Encode_singleton_append] at hchars
  obtain ⟨rest, _, rfl⟩ := Option.map_eq_some_iff.mp hchars
  rw [Array.toList_append]
  rfl

/-! ## The script -/

/-- A word without quotes. -/
def bareWord (text : String) : Token :=
  .word (text.toList.map .bare)

/-- A word that is quoted as a whole. -/
def quotedWord (text : String) : Token :=
  .word (text.toList.map .quoted)

/-- An operator. -/
def operatorToken (text : String) : Token :=
  .operator text.toList

/-- The path of the script, in double quotes. -/
def pathParameter : Shell.Piece :=
  .parameter ['p'] true

/-- The tokens of the script before the word with the path. -/
def tokensBefore : List Token :=
  [bareWord "if", bareWord "test", bareWord "-n", bareWord "x", operatorToken ";",
    bareWord "then", bareWord "printf", quotedWord "omp2-posix-read-v1\\n", operatorToken ";",
    bareWord "else", bareWord "exit", bareWord "65", operatorToken ";", bareWord "fi",
    operatorToken ";"]

/-- The word with the path. -/
def pathToken (path : List Char) : Token :=
  .word ([.bare 'p', .bare '='] ++ path.map .quoted)

/-- The tokens of the script after the word with the path. -/
def tokensAfter : List Token :=
  [operatorToken ";", bareWord "if", bareWord "test", bareWord "-f", .word [pathParameter],
    operatorToken ";", bareWord "then", bareWord "dd",
    .word ([.bare 'i', .bare 'f', .bare '='] ++ [pathParameter]), bareWord "bs=100001",
    bareWord "count=1", .ioNumber [.bare '2'], operatorToken ">", bareWord "/dev/null",
    operatorToken ";", bareWord "elif", bareWord "test", bareWord "-d", .word [pathParameter],
    operatorToken ";", bareWord "then", bareWord "LC_ALL=C", bareWord "ls", bareWord "-lap",
    .word [pathParameter], operatorToken ";", bareWord "else", bareWord "printf",
    quotedWord "Not a readable regular file or directory", operatorToken ">&", bareWord "2",
    operatorToken ";", bareWord "exit", bareWord "66", operatorToken ";", bareWord "fi"]

theorem quote_eq (value : List Char) : quote value = singleQuoted value :=
  rfl

/-- The tokens of the script are the same for each path but for the word with the path. -/
theorem tokens_script (path : List Char) :
    tokens (script path) = some (tokensBefore ++ pathToken path :: tokensAfter) := by
  have hhead : walk .start scriptHead =
      some (⟨.bare, some [.bare 'p', .bare '=']⟩, tokensBefore) := by decide +kernel
  obtain ⟨rest, htail, hrest⟩ : ∃ rest, scriptTail = ';' :: rest ∧
      (tokensFrom ⟨.operator [';'], none⟩ rest) = some tokensAfter :=
    ⟨scriptTail.tail, by decide +kernel, by decide +kernel⟩
  have hback : ∀ more, tokensFrom ⟨.bare, some more⟩ scriptTail =
      some (.word more :: tokensAfter) := by
    intro more
    have hstep : step ⟨.bare, some more⟩ ';' =
        some (⟨.operator [';'], none⟩, [.word more]) := by
      simp [step, bareStep, Reader.endedBefore, operators]
    rw [htail, tokensFrom, hstep]
    dsimp only
    rw [hrest]
    rfl
  unfold script
  rw [quote_eq]
  exact tokens_embedded hhead hback path

/-! ## The arguments -/

/-- The values of the options that are always given. -/
def fixedValues : List (List Char) :=
  fixedArguments.tail.map fun arg => arg.toList.drop 2

/-- The options that the client is given. -/
def givenOptions (port : Option Nat) : List Opt :=
  ('T', none) :: fixedValues.map (fun value => ('o', some value)) ++
    port.toList.map fun port => ('p', some (Nat.toDigits 10 port))

/-- The client takes the destination for its host and the script for its command. -/
theorem reads_arguments (client : Client) {t : Target} (h : t.destination.head? ≠ some '-') :
    client.reads (arguments t) =
      ⟨givenOptions t.port, some t.destination, [script t.path]⟩ := by
  have hfixed : fixedArguments.map String.toList =
      ['-', 'T'] :: fixedValues.map (fun value => '-' :: 'o' :: value) := by decide +kernel
  have hvalues : ∀ value ∈ fixedValues, value ≠ [] := by decide +kernel
  have hfirst : (script t.path).head? = some 'i' := rfl
  have hscript : options client.takes [script t.path] = ([], [script t.path]) :=
    options_operand _ (by rw [hfirst]; decide) _
  have hport : options client.takes
      (portArguments t.port ++ [t.destination, script t.path]) =
      (t.port.toList.map (fun port => ('p', some (Nat.toDigits 10 port))),
        [t.destination, script t.path]) := by
    cases t.port with
    | none => exact options_operand _ h _
    | some port => exact options_separate client.takes_p (by decide) _ h _
  have hall : options client.takes (arguments t) =
      (givenOptions t.port, [t.destination, script t.path]) := by
    unfold arguments
    rw [hfixed, List.append_assoc, List.cons_append,
      options_single client.takes_T (by decide),
      options_attached client.takes_o (by decide) _ hvalues, hport]
    rfl
  unfold Client.reads
  rw [hall]
  dsimp only
  rw [hscript, List.append_nil]

/-! ## Accepted targets -/

/-- What a target that is accepted has been read from. -/
theorem parse_ok {target : List Char} {t : Target} (h : Target.parse target = .ok t) :
    ∃ authority path, Text.splitOnce ['/'] target = some (authority, path) ∧
      badDestination t.destination = false ∧ parsePath path = .ok t.path := by
  unfold Target.parse at h
  split at h
  · cases h
  · next authority path hsplit =>
    refine ⟨authority, path, hsplit, ?_⟩
    cases hauthority : splitAuthority authority with
    | error e =>
      rw [hauthority] at h
      cases h
    | ok parts =>
      rw [hauthority] at h
      obtain ⟨destination, port⟩ := parts
      change (if badDestination destination then _ else _) = _ at h
      split at h
      · cases h
      · next hgood =>
        cases hpath : parsePath path with
        | error e =>
          rw [hpath] at h
          cases h
        | ok decoded =>
          rw [hpath] at h
          cases h
          exact ⟨Bool.eq_false_iff.mpr hgood, rfl⟩

/-- What a path that is accepted has been decoded from. -/
theorem parsePath_ok {path decoded : List Char} (h : parsePath path = .ok decoded) :
    (∃ bytes, Unescapes (utf8 path) bytes ∧ utf8 decoded = slash :: bytes) ∧
      decoded.head? = some '/' ∧ ∀ c ∈ decoded, isControl c = false := by
  unfold parsePath at h
  split at h
  · cases h
  · next bytes hbytes =>
    split at h
    · cases h
    · next text htext =>
      split at h
      · cases h
      · next hcontrol =>
        cases h
        refine ⟨⟨bytes, unescapes_of_unescape hbytes, utf8_of_fromUtf8 htext⟩,
          head_of_fromUtf8 htext, fun c hc => Bool.eq_false_iff.mpr fun hbad => ?_⟩
        exact hcontrol (List.any_eq_true.mpr ⟨c, hc, hbad⟩)

theorem head_of_badDestination {destination : List Char}
    (h : badDestination destination = false) :
    destination ≠ [] ∧ destination.head? ≠ some '-' := by
  unfold badDestination at h
  simp only [Bool.or_eq_false_iff, decide_eq_false_iff_not] at h
  exact ⟨by simpa using h.1.1.1.1, h.1.1.1.2⟩

/-- What the script and the arguments of an accepted target are to the shell and to the client. -/
structure Embedded (client : Client) (target : List Char) (t : Target) : Prop where
  /-- The path is the decoded one. -/
  decoded : ∃ authority path bytes, Text.splitOnce ['/'] target = some (authority, path) ∧
    Unescapes (utf8 path) bytes ∧ utf8 t.path = slash :: bytes
  /-- The quoted path is one word, whose characters are those of the path. -/
  one_word : ∃ pieces, tokens (quote t.path) = some [.word pieces] ∧ literal pieces = some t.path ∧
    ∀ piece ∈ pieces, ∃ c, piece = .quoted c
  /-- The script is the same for each target, but for the value that is assigned. -/
  same_script : tokens (script t.path) = some (tokensBefore ++ pathToken t.path :: tokensAfter)
  absolute : t.path.head? = some '/'
  printable : ∀ c ∈ t.path, isControl c = false
  /-- Neither the destination nor the port is an option. -/
  operands : t.destination.head? ≠ some '-' ∧
    ∀ port ∈ t.port, (Nat.toDigits 10 port).head? ≠ some '-'
  reading : client.reads (arguments t) =
    ⟨givenOptions t.port, some t.destination, [script t.path]⟩

/-- A target that is accepted is one word of a script that is otherwise always the same, and none
of its parts is an option of the client. -/
theorem parse_embedded (client : Client) {target : List Char} {t : Target}
    (h : Target.parse target = .ok t) : Embedded client target t := by
  obtain ⟨authority, path, hsplit, hgood, hpath⟩ := parse_ok h
  obtain ⟨⟨bytes, hbytes, hutf8⟩, habsolute, hprintable⟩ := parsePath_ok hpath
  have hhead := (head_of_badDestination hgood).2
  refine {
    decoded := ⟨authority, path, bytes, hsplit, hbytes, hutf8⟩
    one_word := ⟨t.path.map .quoted, tokens_singleQuoted t.path, literal_quoted t.path, ?_⟩
    same_script := tokens_script t.path
    absolute := habsolute
    printable := hprintable
    operands := ⟨hhead, ?_⟩
    reading := reads_arguments client hhead }
  · intro piece hpiece
    obtain ⟨c, _, rfl⟩ := List.mem_map.mp hpiece
    exact ⟨c, rfl⟩
  · intro port _ hport
    have hmem := List.mem_of_mem_head? hport
    exact absurd (Nat.isDigit_of_mem_toDigits (by decide) (by decide) hmem) (by decide)

/-- OpenSSH. -/
def openSsh : Client where
  takes c := c ∈ "bceilmopBDEFIJLOPQRSwW".toList
  takes_T := by decide
  takes_o := by decide
  takes_p := by decide

/-- A target with a quote and a blank in its path. -/
theorem parse_embedded_quote : Embedded openSsh "reader@localhost:2222/a%27b%20c".toList
    ⟨"reader@localhost".toList, some 2222, "/a'b c".toList⟩ := by
  have hsplit : Text.splitOnce ['/'] "reader@localhost:2222/a%27b%20c".toList =
      some ("reader@localhost:2222".toList, "a%27b%20c".toList) := by decide +kernel
  have hauthority : splitAuthority "reader@localhost:2222".toList =
      .ok ("reader@localhost".toList, some 2222) := rfl
  have hgood : badDestination "reader@localhost".toList = false := by decide +kernel
  have hbytes : unescape (utf8 "a%27b%20c".toList) = some (utf8 "a'b c".toList) := by
    decide +kernel
  have htext : fromUtf8 (slash :: utf8 "a'b c".toList) = some "/a'b c".toList :=
    fromUtf8_utf8 "/a'b c".toList
  have hpath : parsePath "a%27b%20c".toList = .ok "/a'b c".toList := by
    unfold parsePath
    rw [hbytes]
    dsimp only
    rw [htext]
    rfl
  refine parse_embedded openSsh ?_
  unfold Target.parse
  rw [hsplit]
  dsimp only
  rw [hauthority]
  simp only [bind, Except.bind, hgood, Bool.false_eq_true, if_false, hpath]
  rfl

end Omp2.Tools.Ssh
