import Can2Rest.Shared.Inih

/-!
# The lines of the INI parser

The lines that `fgets` reads make up the text, hold a line break at their end
only, and begin anew after every line break.
-/

namespace Can2Rest.Shared.Inih

open Foundation

/-! ## Line breaks -/

/-- The number of bytes of a text that are not line breaks. -/
def ink (text : Bytes) : Nat := text.countP (· ≠ 10)

@[simp] theorem ink_nil : ink [] = 0 := rfl

@[simp] theorem ink_append (first second : Bytes) :
    ink (first ++ second) = ink first + ink second := List.countP_append

theorem ink_cons_of_ne {c : UInt8} (h : c ≠ 10) (text : Bytes) :
    ink (c :: text) = ink text + 1 :=
  List.countP_cons_of_pos (by simpa using h)

@[simp] theorem ink_break (text : Bytes) : ink (10 :: text) = ink text :=
  List.countP_cons_of_neg (by simp)

theorem ink_le_of_sublist {first second : Bytes} (h : first.Sublist second) :
    ink first ≤ ink second := h.countP_le

theorem ink_eq_length {text : Bytes} (h : 10 ∉ text) : ink text = text.length := by
  refine List.countP_eq_length.mpr fun c hc => ?_
  have hne : c ≠ 10 := ne_of_mem_of_not_mem hc h
  simpa using hne

theorem ink_eq_zero_iff {text : Bytes} : ink text = 0 ↔ ∀ c ∈ text, c = 10 := by
  simp [ink, List.countP_eq_zero]

theorem ink_flatten (lines : List Bytes) : ink lines.flatten = (lines.map ink).sum := by
  induction lines with
  | nil => rfl
  | cons line lines ih => simp [ih]

/-! ## The lines of a text -/

section Fgets

variable {size : Nat}

theorem fgets_cons (line : Bytes) (c : UInt8) (stream : Bytes) :
    fgets size line (c :: stream) =
      if c = 10 ∨ (line ++ [c]).length = size - 1 then (line ++ [c]) :: fgets size [] stream
      else fgets size (line ++ [c]) stream := rfl

theorem flatten_fgets (line stream : Bytes) :
    (fgets size line stream).flatten = line ++ stream := by
  induction stream generalizing line with
  | nil =>
      rw [fgets]
      split
      next h => simp [h]
      next => simp
  | cons c stream ih =>
      rw [fgets_cons]
      split
      · simp [ih]
      · simp [ih]

theorem fgets_append (line text rest : Bytes) :
    fgets size line (text ++ 10 :: rest) =
      fgets size line (text ++ [10]) ++ fgets size [] rest := by
  induction text generalizing line with
  | nil => simp [fgets_cons, fgets]
  | cons c text ih =>
      rw [List.cons_append, List.cons_append, fgets_cons, fgets_cons]
      split
      · rw [ih, List.cons_append]
      · exact ih _

theorem ne_nil_of_mem_fgets {line stream text : Bytes} (h : text ∈ fgets size line stream) :
    text ≠ [] := by
  induction stream generalizing line with
  | nil =>
      rw [fgets] at h
      split at h
      · cases h
      next hne => rwa [List.mem_singleton.mp h]
  | cons c stream ih =>
      rw [fgets_cons] at h
      split at h
      · rcases List.mem_cons.mp h with rfl | h
        · simp
        · exact ih h
      · exact ih h

theorem not_mem_dropLast_of_mem_fgets {line stream text : Bytes} (hline : 10 ∉ line)
    (h : text ∈ fgets size line stream) : 10 ∉ text.dropLast := by
  induction stream generalizing line with
  | nil =>
      rw [fgets] at h
      split at h
      · cases h
      · rw [List.mem_singleton.mp h]
        exact fun hmem => hline (List.dropLast_subset _ hmem)
  | cons c stream ih =>
      rw [fgets_cons] at h
      split at h
      · rcases List.mem_cons.mp h with rfl | h
        · rwa [List.dropLast_concat]
        · exact ih List.not_mem_nil h
      next hopen =>
        refine ih ?_ h
        rw [List.mem_append, List.mem_singleton, not_or]
        exact ⟨hline, fun hc => hopen (.inl hc.symm)⟩

theorem length_le_of_mem_fgets {line stream text : Bytes} (hline : line.length < size - 1)
    (h : text ∈ fgets size line stream) : text.length ≤ size - 1 := by
  induction stream generalizing line with
  | nil =>
      rw [fgets] at h
      split at h
      · cases h
      · rw [List.mem_singleton.mp h]
        exact hline.le
  | cons c stream ih =>
      have hlength : (line ++ [c]).length = line.length + 1 := List.length_append
      rw [fgets_cons] at h
      split at h
      · rcases List.mem_cons.mp h with rfl | h
        · omega
        · have hempty : ([] : Bytes).length < size - 1 := Nat.zero_lt_of_lt hline
          exact ih hempty h
      next hopen =>
        refine ih ?_ h
        have hne : (line ++ [c]).length ≠ size - 1 := fun hfull => hopen (.inr hfull)
        omega

theorem fgets_append_of_lt {text : Bytes} (htext : 10 ∉ text) (line rest : Bytes)
    (h : line.length + text.length < size - 1) :
    fgets size line (text ++ rest) = fgets size (line ++ text) rest := by
  induction text generalizing line with
  | nil => rw [List.nil_append, List.append_nil]
  | cons c text ih =>
      have hlength : (line ++ [c]).length = line.length + 1 := List.length_append
      rw [List.length_cons] at h
      have hopen : ¬ (c = 10 ∨ (line ++ [c]).length = size - 1) := by
        rintro (rfl | hfull)
        · exact htext List.mem_cons_self
        · omega
      rw [List.cons_append, fgets_cons, if_neg hopen,
        ih (fun hmem => htext (List.mem_cons_of_mem c hmem)) _ (by omega), List.append_assoc,
        List.singleton_append]

theorem exists_fgets_cons {line : Bytes} (hline : line ≠ []) (stream : Bytes) :
    ∃ more rest, fgets size line stream = (line ++ more) :: rest := by
  induction stream generalizing line with
  | nil => exact ⟨[], [], by rw [fgets, if_neg hline, List.append_nil]⟩
  | cons c stream ih =>
      rw [fgets_cons]
      split
      · exact ⟨[c], fgets size [] stream, rfl⟩
      · have hnext : line ++ [c] ≠ [] := by simp
        obtain ⟨more, rest, h⟩ := ih hnext
        exact ⟨c :: more, rest, by rw [h, List.append_assoc, List.singleton_append]⟩

end Fgets

/-! ## The parts of a line -/

theorem rstrip_sublist (s : Bytes) : (rstrip s).Sublist s :=
  (List.rdropWhile_prefix isspace s).sublist

theorem lskip_sublist (s : Bytes) : (lskip s).Sublist s :=
  (List.dropWhile_suffix isspace).sublist

theorem cStr_sublist (s : Bytes) : (cStr s).Sublist s :=
  (List.takeWhile_prefix _).sublist

theorem append_findCharsOrComment (chars s : Bytes) (wasSpace : Bool) :
    (findCharsOrComment chars s wasSpace).1 ++ (findCharsOrComment chars s wasSpace).2 = s := by
  induction s generalizing wasSpace with
  | nil => rfl
  | cons c s ih =>
      rw [findCharsOrComment]
      split
      · rw [List.cons_append, ih]
      · rfl

theorem findCharsOrComment_sublist (chars s : Bytes) (wasSpace : Bool) :
    (findCharsOrComment chars s wasSpace).1.Sublist s := by
  have h := List.sublist_append_left (findCharsOrComment chars s wasSpace).1
    (findCharsOrComment chars s wasSpace).2
  rwa [append_findCharsOrComment] at h

theorem startOf_false (line : Bytes) :
    startOf false line =
      (lskip (rstrip (cStr line)),
       (rstrip (cStr line)).length - (lskip (rstrip (cStr line))).length) := by
  simp [startOf]

theorem startOf_sublist (line : Bytes) : (startOf false line).1.Sublist line := by
  rw [startOf_false]
  exact ((lskip_sublist _).trans (rstrip_sublist _)).trans (cStr_sublist line)

theorem ink_startOf_of_moved {line : Bytes} (hline : 10 ∉ line.dropLast)
    (hstart : (startOf false line).1 ≠ []) (hmoved : (startOf false line).2 > 0) :
    ink (startOf false line).1 + 1 ≤ ink line := by
  rw [startOf_false] at hstart hmoved ⊢
  let stripped := rstrip (cStr line)
  have hsplit : stripped.takeWhile isspace ++ lskip stripped = stripped :=
    List.takeWhile_append_dropWhile
  cases hspaces : stripped.takeWhile isspace with
  | nil =>
      rw [hspaces, List.nil_append] at hsplit
      have hlength := congrArg List.length hsplit
      have hpos : 0 < stripped.length - (lskip stripped).length := hmoved
      omega
  | cons c spaces =>
      rw [hspaces] at hsplit
      have hstarts : stripped <+: line :=
        (List.rdropWhile_prefix isspace _).trans (List.takeWhile_prefix _)
      obtain ⟨rest, hrest⟩ := hstarts
      rw [← hsplit] at hrest
      have hne : c ≠ 10 := by
        rintro rfl
        refine hline ?_
        rw [← hrest, List.cons_append, List.cons_append, List.dropLast_cons_of_ne_nil]
        · exact List.mem_cons_self
        · exact List.append_ne_nil_of_left_ne_nil
            (List.append_ne_nil_of_right_ne_nil spaces hstart) rest
      have hink : ink line = ink spaces + 1 + ink (lskip stripped) + ink rest := by
        rw [← hrest, ink_append, ink_append, ink_cons_of_ne hne]
      change ink (lskip stripped) + 1 ≤ ink line
      omega

/-! ## What a line does -/

/-- What the scanner can make of a line, and the part of the line that it takes. -/
inductive LineEffect (s : State) (line : Bytes) (s' : State) : Prop
  | quiet (hhandled : s'.handled = s.handled)
      (hprev : s'.prevName = s.prevName ∨ s'.prevName = [])
  | assigned (name value : Bytes)
      (hhandled : s'.handled = s.handled ++ [(s.iniSection, name, value)])
      (hprev : s'.prevName = strncpy0 name 50) (hink : ink name + 1 + ink value ≤ ink line)
  | continued (value : Bytes) (hname : s.prevName ≠ [])
      (hhandled : s'.handled = s.handled ++ [(s.iniSection, s.prevName, value)])
      (hprev : s'.prevName = s.prevName) (hink : ink value + 1 ≤ ink line)

theorem ink_assigned {start : Bytes} {c : UInt8} (hc : c ≠ 10)
    (h : (findCharsOrComment [61, 58] start false).2.head? = some c) :
    ink (rstrip (findCharsOrComment [61, 58] start false).1) + 1 +
        ink (rstrip (findCharsOrComment []
          (lskip (findCharsOrComment [61, 58] start false).2.tail) false).1) ≤ ink start := by
  have hsplit := append_findCharsOrComment [61, 58] start false
  generalize findCharsOrComment [61, 58] start false = found at h hsplit ⊢
  obtain ⟨name, rest⟩ := found
  obtain ⟨tail, rfl⟩ := List.head?_eq_some_iff.mp h
  have hname := ink_le_of_sublist (rstrip_sublist name)
  have hvalue := ink_le_of_sublist (((rstrip_sublist _).trans
    (findCharsOrComment_sublist [] (lskip tail) false)).trans (lskip_sublist tail))
  have hink : ink (name ++ c :: tail) = ink start := congrArg ink hsplit
  rw [ink_append, ink_cons_of_ne hc] at hink
  dsimp only [List.tail_cons]
  omega

theorem scanLine_eq {s : State} (hlineno : s.lineno ≠ 0) (line : Bytes) :
    scanLine s line =
      scanStart { s with lineno := s.lineno + 1 } (startOf false line).1
        (startOf false line).2 := by
  have hfirst : decide (s.lineno + 1 = 1) = false :=
    decide_eq_false fun h => hlineno (Nat.succ.inj h)
  rw [scanLine]
  simp only [hfirst]

theorem scanLine_effect {s : State} (hlineno : s.lineno ≠ 0) {line : Bytes}
    (hline : 10 ∉ line.dropLast) : LineEffect s line (scanLine s line) := by
  rw [scanLine_eq hlineno]
  have hsublist := startOf_sublist line
  have hmoved := ink_startOf_of_moved hline
  generalize (startOf false line).1 = start at hsublist hmoved
  generalize (startOf false line).2 = moved at hmoved
  unfold scanStart
  dsimp only
  split
  · exact .quiet rfl (.inl rfl)
  split
  next h =>
      obtain ⟨hname, hstart, hmoved'⟩ := h
      have hvalue := (rstrip_sublist _).trans (findCharsOrComment_sublist [] start false)
      have hink := ink_le_of_sublist hvalue
      have hle := hmoved hstart hmoved'
      exact .continued _ hname rfl rfl (by omega)
  split
  · split
    · exact .quiet rfl (.inr rfl)
    · exact .quiet rfl (.inl rfl)
  split
  · split
    next hfound =>
        refine .assigned _ _ rfl rfl (le_trans ?_ (ink_le_of_sublist hsublist))
        rcases hfound with hfound | hfound
        · exact ink_assigned (by decide) hfound
        · exact ink_assigned (by decide) hfound
    next => exact .quiet rfl (.inl rfl)
  · exact .quiet rfl (.inl rfl)

/-! ## Lines that assign -/

structure IsName (name : Bytes) : Prop where
  ne_nil : name ≠ []
  bytes : ∀ c ∈ name, c = 95 ∨ 65 ≤ c ∧ c ≤ 90

/-- What is read for the text behind a delimiter. -/
def readValue (text : Bytes) : Bytes :=
  rstrip (findCharsOrComment [] (lskip (rstrip (cStr text))) false).1

theorem rstrip_append_cons {c : UInt8} (hc : isspace c = false) (first second : Bytes) :
    rstrip (first ++ c :: second) = first ++ c :: rstrip second := by
  have hcons : (c :: first.reverse).dropWhile isspace = c :: first.reverse :=
    List.dropWhile_cons_of_neg (by simp [hc])
  have hdrop : (second.reverse ++ c :: first.reverse).dropWhile isspace =
      second.reverse.dropWhile isspace ++ c :: first.reverse := by
    rw [List.dropWhile_append, hcons]
    split
    next h => rw [List.isEmpty_iff.mp h, List.nil_append]
    next => rfl
  rw [rstrip, rstrip, List.rdropWhile, List.rdropWhile, List.reverse_append, List.reverse_cons,
    List.append_assoc, List.singleton_append, hdrop]
  simp

theorem lskip_eq_self {s : Bytes} (h : ∀ c ∈ s.head?, isspace c = false) : lskip s = s := by
  cases s with
  | nil => rfl
  | cons c s =>
      have hc : isspace c = false := h c rfl
      exact List.dropWhile_cons_of_neg (by simp [hc])

theorem findCharsOrComment_append {chars name : Bytes} (hname : ∀ c ∈ name, c ∉ chars ∧ c ≠ 59)
    {c : UInt8} (hc : c ∈ chars) (rest : Bytes) (wasSpace : Bool) :
    findCharsOrComment chars (name ++ c :: rest) wasSpace = (name, c :: rest) := by
  induction name generalizing wasSpace with
  | nil =>
      rw [List.nil_append, findCharsOrComment, if_neg fun h => h.1 hc]
  | cons x name ih =>
      obtain ⟨hx, hcomment⟩ := hname x List.mem_cons_self
      rw [List.cons_append, findCharsOrComment, if_pos ⟨hx, fun h => hcomment h.2⟩,
        ih fun y hy => hname y (List.mem_cons_of_mem x hy)]

namespace IsName

variable {name : Bytes} (h : IsName name)
include h

theorem not_mem {c : UInt8} (hc : ¬ (c = 95 ∨ 65 ≤ c ∧ c ≤ 90)) : c ∉ name :=
  fun hmem => hc (h.bytes c hmem)

theorem isspace_eq_false {c : UInt8} (hc : c ∈ name) : isspace c = false := by
  have hbyte := h.bytes c hc
  cases hspace : isspace c with
  | false => rfl
  | true =>
      exfalso
      simp only [isspace, Bool.or_eq_true, Bool.and_eq_true, decide_eq_true_eq,
        UInt8.le_iff_toNat_le] at hspace hbyte
      rcases hbyte with rfl | hbyte
      · revert hspace
        decide
      · rcases hspace with rfl | hspace
        · revert hbyte
          decide
        · have hlow : 65 ≤ c.toNat := hbyte.1
          have hhigh : c.toNat ≤ 13 := hspace.2
          omega

theorem ink_eq : ink name = name.length := ink_eq_length (h.not_mem (by decide))

theorem startOf_append (text : Bytes) :
    startOf false (name ++ 61 :: text) = (name ++ 61 :: rstrip (cStr text), 0) := by
  have hzero : ∀ c ∈ name, decide (c ≠ 0) = true := by
    intro c hc
    have hne : c ≠ 0 := ne_of_mem_of_not_mem hc (h.not_mem (by decide))
    simpa using hne
  have hcStr : cStr (name ++ 61 :: text) = name ++ 61 :: cStr text := by
    rw [cStr, List.takeWhile_append_of_pos hzero, List.takeWhile_cons_of_pos (by decide), cStr]
  have hskip : lskip (name ++ 61 :: rstrip (cStr text)) = name ++ 61 :: rstrip (cStr text) := by
    refine lskip_eq_self fun c hc => ?_
    obtain ⟨first, rest, rfl⟩ := List.exists_cons_of_ne_nil h.ne_nil
    rw [List.cons_append, List.head?_cons, Option.mem_some_iff] at hc
    exact h.isspace_eq_false (hc ▸ List.mem_cons_self)
  rw [startOf_false, hcStr, rstrip_append_cons (by decide), hskip, Nat.sub_self]

end IsName

theorem rstrip_eq_self {s : Bytes} (h : ∀ c ∈ s.getLast?, isspace c = false) : rstrip s = s := by
  rw [rstrip, List.rdropWhile_eq_self_iff]
  intro hnil
  have hlast := h (s.getLast hnil) (List.getLast?_eq_getLast_of_ne_nil hnil)
  simp [hlast]

theorem scanLine_assignment {s : State} (hlineno : s.lineno ≠ 0) {name : Bytes}
    (h : IsName name) (text : Bytes) :
    scanLine s (name ++ 61 :: text) =
      { State.handle { s with lineno := s.lineno + 1 } name (readValue text) with
        prevName := strncpy0 name 50 } := by
  have h59 : (59 : UInt8) ∉ name := h.not_mem (by decide)
  have hdelimiter : ∀ c ∈ name, c ∉ ([61, 58] : Bytes) := by
    rintro c hc hmem
    rcases List.mem_pair.mp hmem with rfl | rfl
    · exact h.not_mem (by decide) hc
    · exact h.not_mem (by decide) hc
  have hfound : findCharsOrComment [61, 58] (name ++ 61 :: rstrip (cStr text)) false =
      (name, 61 :: rstrip (cStr text)) :=
    findCharsOrComment_append (fun c hc => ⟨hdelimiter c hc, ne_of_mem_of_not_mem hc h59⟩)
      (by decide) _ false
  have hstrip : rstrip name = name :=
    rstrip_eq_self fun c hc => h.isspace_eq_false (List.mem_of_getLast? hc)
  obtain ⟨first, rest, hcons⟩ := List.exists_cons_of_ne_nil h.ne_nil
  have hfirst : first ∈ name := by
    rw [hcons]
    exact List.mem_cons_self
  have hhead : (name ++ 61 :: rstrip (cStr text)).head? = some first := by
    rw [hcons]
    rfl
  have hne : ∀ {c : UInt8}, c ∉ name → (some first : Option UInt8) ≠ some c :=
    fun hc heq => hc (Option.some.inj heq ▸ hfirst)
  rw [scanLine_eq hlineno, h.startOf_append, scanStart, hhead,
    if_neg (not_or_intro (hne h59) (hne (h.not_mem (by decide)))),
    if_neg (fun hcontinue => Nat.lt_irrefl 0 hcontinue.2.2),
    if_neg (hne (h.not_mem (by decide))), if_pos (by simp), hfound]
  dsimp only
  rw [if_pos (.inl rfl), hstrip]
  rfl

theorem scanLine_break {s : State} (hlineno : s.lineno ≠ 0) :
    scanLine s [10] = { s with lineno := s.lineno + 1 } := by
  have hstart : startOf false [10] = ([], 0) := by decide +kernel
  rw [scanLine_eq hlineno, hstart]
  simp [scanStart]

end Can2Rest.Shared.Inih
