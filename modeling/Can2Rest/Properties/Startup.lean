import Can2Rest.Startup
import Mathlib.Data.List.Chain

/-!
# Startup and the configuration file

The default configuration is written not only when the file is missing but also
when one of its lines does not parse.  Which lines parse is stated here without
the parser, and the two are shown to agree.
-/

namespace Can2Rest.Properties

open Foundation Shared Shared.Inih

/-! ## Lines that parse -/

/-- No `;` follows a white space, so no comment begins in the text. -/
def Uncommented (text : Bytes) : Prop :=
  text.IsChain fun w c => ¬ (isspace w = true ∧ c = 59)

/-- One of `chars` occurs before any comment. -/
def HasDelimiter (chars text : Bytes) : Prop :=
  ∃ before c after, text = before ++ c :: after ∧ c ∈ chars ∧ Uncommented before

/-- A line without its surrounding white space, and whether something preceded it. -/
structure Line where
  text : Bytes
  indented : Bool

namespace Line

/-- Blank lines, comments, and indented lines after a name are no assignments. -/
def Plain (named : Bool) (line : Line) : Prop :=
  line.text = [] ∨ line.text.head? = some 59 ∨ line.text.head? = some 35 ∨
    named = true ∧ line.indented = true

instance (named : Bool) (line : Line) : Decidable (line.Plain named) := by
  unfold Plain
  infer_instance

/-- The line parses, if `named` says whether it can continue a value. -/
def Parses (named : Bool) (line : Line) : Prop :=
  line.Plain named ∨
    if line.text.head? = some 91 then HasDelimiter [93] line.text.tail
    else HasDelimiter [61, 58] line.text

/-- Whether the next line can continue a value: a heading or an empty name ends it. -/
def namedAfter (named : Bool) (line : Line) : Bool :=
  if line.Plain named then named
  else line.text.head? ≠ some 91 ∧ line.text.head? ≠ some 61 ∧ line.text.head? ≠ some 58

end Line

def Parse : (named : Bool) → List Line → Prop
  | _, [] => True
  | named, line :: lines => line.Parses named ∧ Parse (line.namedAfter named) lines

def lineOf (first : Bool) (line : Bytes) : Line :=
  ⟨(startOf first line).1, (startOf first line).2 > 0⟩

/-- The lines of a file; before the text of the first there may be a byte order mark. -/
def linesOf (first : Bool) : List Bytes → List Line
  | [] => []
  | line :: lines => lineOf first line :: linesOf false lines

/-- Every line of the file is blank, a comment, a continuation, a heading or an assignment. -/
def LinesParse (content : Bytes) : Prop := Parse false (linesOf true (fgets 200 [] content))

/-! ## The search for a delimiter -/

theorem head_findCharsOrComment (chars s : Bytes) (w : UInt8) :
    (∃ c ∈ chars, (findCharsOrComment chars s (isspace w)).2.head? = some c) ↔
      ∃ before c after, s = before ++ c :: after ∧ c ∈ chars ∧ Uncommented (w :: before) := by
  induction s generalizing w with
  | nil => simp [findCharsOrComment]
  | cons x s ih =>
      rw [findCharsOrComment]
      by_cases hx : x ∈ chars
      · rw [if_neg fun h => h.1 hx]
        exact iff_of_true ⟨x, hx, rfl⟩ ⟨[], x, s, rfl, hx, List.isChain_singleton w⟩
      by_cases hcomment : isspace w = true ∧ x = 59
      · rw [if_neg fun h => h.2 hcomment]
        refine iff_of_false ?_ ?_
        · rintro ⟨c, hc, hhead⟩
          exact hx (Option.some.inj hhead ▸ hc)
        · rintro ⟨before, c, after, hs, hc, hchain⟩
          cases before with
          | nil => exact hx ((List.cons.inj hs).1 ▸ hc)
          | cons y before =>
              obtain rfl : x = y := (List.cons.inj hs).1
              exact (List.isChain_cons_cons.mp hchain).1 hcomment
      · rw [if_pos ⟨hx, hcomment⟩]
        refine (ih x).trans ⟨?_, ?_⟩
        · rintro ⟨before, c, after, rfl, hc, hchain⟩
          exact ⟨x :: before, c, after, rfl, hc, List.isChain_cons_cons.mpr ⟨hcomment, hchain⟩⟩
        · rintro ⟨before, c, after, hs, hc, hchain⟩
          cases before with
          | nil => exact absurd ((List.cons.inj hs).1 ▸ hc) hx
          | cons y before =>
              obtain ⟨rfl, rfl⟩ := List.cons.inj hs
              exact ⟨before, c, after, rfl, hc, (List.isChain_cons_cons.mp hchain).2⟩

theorem findCharsOrComment_iff (chars text : Bytes) :
    (∃ c ∈ chars, (findCharsOrComment chars text false).2.head? = some c) ↔
      HasDelimiter chars text := by
  refine (head_findCharsOrComment chars text 0).trans ?_
  refine exists_congr fun before => exists_congr fun c => exists_congr fun after =>
    and_congr_right fun _ => and_congr_right fun _ => ?_
  cases before with
  | nil => exact iff_of_true (List.isChain_singleton 0) List.IsChain.nil
  | cons x before =>
      refine List.isChain_cons_cons.trans (and_iff_right ?_)
      exact fun h => Bool.false_ne_true h.1

/-! ## One line -/

def named (s : State) : Bool := s.prevName ≠ []

section ScanStart

variable {s : State} {start : Bytes} {moved : Nat}

theorem scanStart_plain (h : Line.Plain (named s) ⟨start, moved > 0⟩) :
    (scanStart s start moved).error = s.error ∧
      (scanStart s start moved).prevName = s.prevName := by
  unfold scanStart
  by_cases hnil : start = []
  · simp [hnil]
  rcases h with h | h | h | ⟨hname, hmoved⟩
  · exact absurd h hnil
  · rw [if_pos (.inl h)]
    exact ⟨rfl, rfl⟩
  · rw [if_pos (.inr h)]
    exact ⟨rfl, rfl⟩
  · split
    · exact ⟨rfl, rfl⟩
    · rw [if_pos ⟨of_decide_eq_true hname, hnil, of_decide_eq_true hmoved⟩]
      exact ⟨rfl, rfl⟩

theorem not_plain_iff :
    ¬ Line.Plain (named s) ⟨start, moved > 0⟩ ↔
      start ≠ [] ∧ start.head? ≠ some 59 ∧ start.head? ≠ some 35 ∧
        ¬ (s.prevName ≠ [] ∧ moved > 0) := by
  simp [Line.Plain, named, not_or]

theorem scanStart_heading (h : ¬ Line.Plain (named s) ⟨start, moved > 0⟩)
    (hhead : start.head? = some 91) :
    scanStart s start moved =
      let found := findCharsOrComment [93] start.tail false
      if found.2.head? = some 93 then
        { s with iniSection := strncpy0 found.1 50, prevName := [] }
      else s.fail := by
  obtain ⟨hnil, h59, h35, hcontinue⟩ := not_plain_iff.mp h
  unfold scanStart
  rw [if_neg (not_or_intro h59 h35), if_neg (fun hc => hcontinue ⟨hc.1, hc.2.2⟩), if_pos hhead]

theorem scanStart_assignment (h : ¬ Line.Plain (named s) ⟨start, moved > 0⟩)
    (hhead : start.head? ≠ some 91) :
    scanStart s start moved =
      let found := findCharsOrComment [61, 58] start false
      if found.2.head? = some 61 ∨ found.2.head? = some 58 then
        let name := rstrip found.1
        let value := rstrip (findCharsOrComment [] (lskip found.2.tail) false).1
        { s.handle name value with prevName := strncpy0 name 50 }
      else s.fail := by
  obtain ⟨hnil, h59, h35, hcontinue⟩ := not_plain_iff.mp h
  unfold scanStart
  rw [if_neg (not_or_intro h59 h35), if_neg (fun hc => hcontinue ⟨hc.1, hc.2.2⟩),
    if_neg hhead, if_pos hnil]

end ScanStart

theorem not_isspace_startOf (first : Bool) (line : Bytes) :
    ∀ c ∈ (startOf first line).1.head?, isspace c = false := by
  intro c hc
  have hhead := List.head?_dropWhile_not isspace (rstrip ((cStr line).drop
    (if first = true ∧ byteOrderMark <+: cStr line then 3 else 0)))
  rw [show List.head? (List.dropWhile isspace _) = some c from hc] at hhead
  exact hhead

theorem strncpy0_name_ne_nil {text : Bytes} (htext : ∀ c ∈ text.head?, isspace c = false)
    (hnil : text ≠ []) :
    strncpy0 (rstrip (findCharsOrComment [61, 58] text false).1) 50 ≠ [] ↔
      text.head? ≠ some 61 ∧ text.head? ≠ some 58 := by
  obtain ⟨c, text, rfl⟩ := List.exists_cons_of_ne_nil hnil
  have hc : isspace c = false := htext c rfl
  rw [findCharsOrComment, List.head?_cons]
  by_cases hmem : c ∈ [61, 58]
  · rw [if_neg fun h => h.1 hmem]
    refine iff_of_false (fun h => h rfl) fun h => ?_
    simp only [List.mem_cons, List.not_mem_nil, or_false] at hmem
    rcases hmem with rfl | rfl
    · exact h.1 rfl
    · exact h.2 rfl
  · rw [if_pos ⟨hmem, fun h => Bool.false_ne_true h.1⟩]
    refine iff_of_true (fun h => ?_) ⟨fun h => hmem ?_, fun h => hmem ?_⟩
    · have hstrip := (List.take_eq_nil_iff.mp h).resolve_left (by decide)
      have hspace := List.rdropWhile_eq_nil_iff.mp hstrip c List.mem_cons_self
      rw [hc] at hspace
      cases hspace
    · rw [Option.some.inj h]
      decide
    · rw [Option.some.inj h]
      decide

/-! ## The scanner and the lines that parse -/

theorem error_fail {s : State} (h : s.lineno ≠ 0) : s.fail.error ≠ 0 := by
  unfold State.fail
  split
  next => exact h
  next hne => exact hne

theorem error_scanStart {s : State} {start : Bytes} {moved : Nat} (h : s.error ≠ 0) :
    (scanStart s start moved).error ≠ 0 := by
  have hfail : s.fail.error ≠ 0 := by
    simp only [State.fail, if_neg h]
    exact h
  unfold scanStart
  dsimp only
  split
  · exact h
  split
  · exact h
  split
  · split
    · exact h
    · exact hfail
  split
  · split
    · exact h
    · exact hfail
  · exact h

/-- A line without error parses, and leaves a name or none as `namedAfter` says. -/
theorem scanStart_iff {s : State} {start : Bytes} (moved : Nat) (hlineno : s.lineno ≠ 0)
    (herror : s.error = 0) (hstart : ∀ c ∈ start.head?, isspace c = false) :
    ((scanStart s start moved).error = 0 ↔ Line.Parses (named s) ⟨start, moved > 0⟩) ∧
      ((scanStart s start moved).error = 0 →
        named (scanStart s start moved) = Line.namedAfter (named s) ⟨start, moved > 0⟩) := by
  by_cases hplain : Line.Plain (named s) ⟨start, moved > 0⟩
  · obtain ⟨hsame, hname⟩ := scanStart_plain hplain
    rw [hsame]
    refine ⟨iff_of_true herror (.inl hplain), fun _ => ?_⟩
    rw [named, hname, Line.namedAfter, if_pos hplain, named]
  have hafter : Line.namedAfter (named s) ⟨start, moved > 0⟩ =
      decide (start.head? ≠ some 91 ∧ start.head? ≠ some 61 ∧ start.head? ≠ some 58) :=
    if_neg hplain
  have hparses : Line.Parses (named s) ⟨start, moved > 0⟩ ↔
      if start.head? = some 91 then HasDelimiter [93] start.tail
      else HasDelimiter [61, 58] start :=
    or_iff_right hplain
  rw [hparses, hafter]
  by_cases hhead : start.head? = some 91
  · rw [scanStart_heading hplain hhead, if_pos hhead, ← findCharsOrComment_iff]
    by_cases hfound : (findCharsOrComment [93] start.tail false).2.head? = some 93
    · simp only [if_pos hfound]
      refine ⟨iff_of_true herror ⟨93, List.mem_singleton_self 93, hfound⟩, fun _ => ?_⟩
      simp [named, hhead]
    · simp only [if_neg hfound]
      refine ⟨iff_of_false (error_fail hlineno) ?_, fun h => absurd h (error_fail hlineno)⟩
      rintro ⟨c, hc, hfound'⟩
      rw [List.mem_singleton.mp hc] at hfound'
      exact hfound hfound'
  · have hdelimiter : (∃ c ∈ [61, 58],
        (findCharsOrComment [61, 58] start false).2.head? = some c) ↔
        (findCharsOrComment [61, 58] start false).2.head? = some 61 ∨
          (findCharsOrComment [61, 58] start false).2.head? = some 58 := by simp
    rw [scanStart_assignment hplain hhead, if_neg hhead, ← findCharsOrComment_iff, hdelimiter]
    by_cases hfound : (findCharsOrComment [61, 58] start false).2.head? = some 61 ∨
        (findCharsOrComment [61, 58] start false).2.head? = some 58
    · simp only [if_pos hfound]
      refine ⟨iff_of_true herror hfound, fun _ => ?_⟩
      have hname := strncpy0_name_ne_nil hstart (not_plain_iff.mp hplain).1
      simp only [named, ne_eq, hname, hhead, not_false_eq_true, true_and]
    · simp only [if_neg hfound]
      exact ⟨iff_of_false (error_fail hlineno) hfound, fun h => absurd h (error_fail hlineno)⟩

theorem lineno_scanStart (s : State) (start : Bytes) (moved : Nat) :
    (scanStart s start moved).lineno = s.lineno := by
  unfold scanStart
  dsimp only
  repeat' split
  all_goals rfl

theorem error_foldl {s : State} (h : s.error ≠ 0) (lines : List Bytes) :
    (lines.foldl scanLine s).error ≠ 0 := by
  induction lines generalizing s with
  | nil => exact h
  | cons line lines ih => exact ih (error_scanStart h)

theorem scan_iff {s : State} {first : Bool} (hfirst : first = decide (s.lineno + 1 = 1))
    (herror : s.error = 0) (lines : List Bytes) :
    (lines.foldl scanLine s).error = 0 ↔ Parse (named s) (linesOf first lines) := by
  induction lines generalizing s first with
  | nil => exact iff_of_true herror trivial
  | cons line lines ih =>
      let s' : State := { s with lineno := s.lineno + 1 }
      have hline : scanLine s line =
          scanStart s' (startOf first line).1 (startOf first line).2 := by
        rw [hfirst]
        rfl
      obtain ⟨hparses, hnamed⟩ := scanStart_iff (s := s') (startOf first line).2
        (Nat.succ_ne_zero _) herror (not_isspace_startOf first line)
      rw [← hline] at hparses hnamed
      rw [List.foldl_cons]
      by_cases hok : (scanLine s line).error = 0
      · have hlater : false = decide ((scanLine s line).lineno + 1 = 1) := by
          rw [hline, lineno_scanStart]
          exact (decide_eq_false fun h => Nat.succ_ne_zero _ (Nat.succ.inj h)).symm
        rw [ih hlater hok, hnamed hok]
        exact (and_iff_right (hparses.mp hok)).symm
      · exact iff_of_false (error_foldl hok lines) fun h => hok (hparses.mpr h.1)

/-- The parser meets no error in the files whose lines parse, and only in them. -/
theorem parseStream_iff (content : Bytes) :
    (parseStream content).error = 0 ↔ LinesParse content :=
  scan_iff rfl rfl (fgets 200 [] content)

/-! ## The configuration file after startup -/

def defaultText : Bytes := ConfigInstance.new.loadDefaults.text

theorem linesParse_defaultText : LinesParse defaultText :=
  (parseStream_iff defaultText).mp (by decide +kernel)

/-- No option ends the process early or asks for a new file. -/
def PlainStart (args : List Bytes) : Prop :=
  ascii "-help" ∉ args ∧ ascii "-version" ∉ args ∧ ascii "-writeconfig" ∉ args

theorem plainStart_program : PlainStart [ascii "./can2rest"] := by
  refine ⟨?_, ?_, ?_⟩ <;> decide

theorem ofFile_error {file : ConfigFile} (hreadable : file.readable = true) (creatable : Bool) :
    (INIReader.ofFile ⟨some file, creatable⟩).error = 0 ↔ LinesParse file.content := by
  simp only [INIReader.ofFile, if_pos hreadable, Int.natCast_eq_zero, parseStream_iff]

section LoadConfig

variable {args : List Bytes} {file : ConfigFile} {creatable : Bool}

theorem configFile_loadConfig (hargs : PlainStart args) (disk : Disk) :
    (Main.loadConfig args disk).2 =
      if (ConfigInstance.new.loadConfigFile disk).1 = false then
        (ConfigInstance.new.loadConfigFile disk).2.loadDefaults.writeConfigFile disk
      else disk := by
  unfold Main.loadConfig
  rw [if_neg hargs.1, if_neg hargs.2.1]
  simp only [hargs.2.2, or_false]
  split <;> rfl

theorem configFile_of_linesParse (hargs : PlainStart args) (hreadable : file.readable = true)
    (h : LinesParse file.content) :
    (Main.loadConfig args ⟨some file, creatable⟩).2.configFile = some file := by
  have herror := (ofFile_error hreadable creatable).mpr h
  have hload : (ConfigInstance.new.loadConfigFile ⟨some file, creatable⟩).1 = true := by
    rw [ConfigInstance.loadConfigFile, if_neg (not_not_intro herror)]
  rw [configFile_loadConfig hargs, hload]
  rfl

theorem configFile_of_not_linesParse (hargs : PlainStart args)
    (hreadable : file.readable = true) (h : ¬ LinesParse file.content) :
    (Main.loadConfig args ⟨some file, creatable⟩).2.configFile =
      some (if file.writable then { file with content := defaultText } else file) := by
  have herror := mt (ofFile_error hreadable creatable).mp h
  have hload : (ConfigInstance.new.loadConfigFile ⟨some file, creatable⟩).1 = false := by
    rw [ConfigInstance.loadConfigFile, if_pos herror]
  rw [configFile_loadConfig hargs, if_pos hload, ConfigInstance.writeConfigFile]
  dsimp only
  split
  · rfl
  · rfl

end LoadConfig

/--
An existing, readable configuration survives a start if each of its lines
parses, or if the file cannot be written, and only then.
-/
theorem startup_keeps_iff (args : List Bytes) (hargs : PlainStart args) (file : ConfigFile)
    (hreadable : file.readable = true) (creatable : Bool) :
    (Main.loadConfig args ⟨some file, creatable⟩).2.configFile = some file ↔
      LinesParse file.content ∨ file.writable = false := by
  by_cases h : LinesParse file.content
  · exact iff_of_true (configFile_of_linesParse hargs hreadable h) (.inl h)
  rw [configFile_of_not_linesParse hargs hreadable h, or_iff_right h]
  cases hwritable : file.writable with
  | false => simp
  | true =>
      refine iff_of_false (fun heq => h ?_) Bool.noConfusion
      rw [if_pos rfl] at heq
      rw [← Option.some.inj heq]
      exact linesParse_defaultText

theorem startup_keeps_defaults :
    (Main.loadConfig [ascii "./can2rest"] ⟨some ⟨defaultText, true, true⟩, true⟩).2.configFile =
      some ⟨defaultText, true, true⟩ :=
  (startup_keeps_iff [ascii "./can2rest"] plainStart_program ⟨defaultText, true, true⟩ rfl
    true).mpr (.inl linesParse_defaultText)

theorem startup_overwrites :
    PlainStart [ascii "./can2rest"] ∧
      (Main.loadConfig [ascii "./can2rest"]
        ⟨some ⟨ascii "REDIS_HOST\n", true, true⟩, true⟩).2.configFile =
          some ⟨defaultText, true, true⟩ ∧
      ascii "REDIS_HOST\n" ≠ defaultText := by
  have hill : ¬ LinesParse (ascii "REDIS_HOST\n") :=
    mt (parseStream_iff _).mpr (by decide +kernel)
  exact ⟨plainStart_program, configFile_of_not_linesParse plainStart_program rfl hill,
    by decide +kernel⟩

end Can2Rest.Properties
