import Can2Rest.Properties.Startup
import Can2Rest.Shared.InihLines
import Mathlib.Algebra.Order.BigOperators.Group.List

/-!
# Writing and reading the configuration file

The writer quotes nothing.  A value survives if it fits into the line of its
entry and the reader strips nothing from it; that no other value survives, not
even by the lines that several values make together, is a matter of counting:
every line that the reader takes something from costs a delimiter or a space.
-/

namespace Can2Rest.Properties

open Foundation Shared Shared.Inih

/-! ## Values that are read as written -/

/-- The text is not altered by the reading of its line. -/
structure IsValue (text : Bytes) : Prop where
  zero : 0 ∉ text
  head : ∀ c ∈ text.head?, isspace c = false
  last : ∀ c ∈ text.getLast?, isspace c = false
  uncommented : Uncommented text

theorem findCharsOrComment_nil_eq_self_iff (w : UInt8) (s : Bytes) :
    (findCharsOrComment [] s (isspace w)).1 = s ↔
      Uncommented (w :: s) := by
  induction s generalizing w with
  | nil => exact iff_of_true rfl (List.isChain_singleton w)
  | cons c s ih =>
      rw [findCharsOrComment, Uncommented, List.isChain_cons_cons]
      by_cases hcomment : isspace w = true ∧ c = 59
      · rw [if_neg fun h => h.2 hcomment]
        exact iff_of_false (by simp) fun h => h.1 hcomment
      · rw [if_pos ⟨List.not_mem_nil, hcomment⟩, and_iff_right hcomment]
        refine Iff.trans ?_ (ih c)
        simp

theorem uncommented_cons {w : UInt8} (hw : isspace w = false) (s : Bytes) :
    Uncommented (w :: s) ↔ Uncommented s := by
  cases s with
  | nil => exact iff_of_true (List.isChain_singleton w) .nil
  | cons c s =>
      rw [Uncommented, List.isChain_cons_cons, and_iff_right]
      · rfl
      rw [hw]
      exact fun h => Bool.false_ne_true h.1

theorem lskip_eq_self_iff {s : Bytes} : lskip s = s ↔ ∀ c ∈ s.head?, isspace c = false := by
  refine ⟨fun h c hc => ?_, lskip_eq_self⟩
  have hhead := List.head?_dropWhile_not isspace s
  rw [show List.dropWhile isspace s = s from h, Option.mem_def.mp hc] at hhead
  exact hhead

theorem rstrip_eq_self_iff {s : Bytes} : rstrip s = s ↔ ∀ c ∈ s.getLast?, isspace c = false := by
  refine ⟨fun h c hc => ?_, rstrip_eq_self⟩
  obtain ⟨hnil, rfl⟩ := List.mem_getLast?_eq_getLast hc
  rw [rstrip, List.rdropWhile_eq_self_iff] at h
  exact Bool.eq_false_of_not_eq_true (h hnil)

theorem readValue_eq_self_iff {text : Bytes} : readValue text = text ↔ IsValue text := by
  have hcomment := (findCharsOrComment_nil_eq_self_iff 0 text).trans
    (uncommented_cons rfl text)
  have hzero : isspace 0 = false := rfl
  rw [hzero] at hcomment
  constructor
  · intro h
    -- every part of the reading takes a sublist, so each takes the whole text
    have hvalue := rstrip_sublist (findCharsOrComment [] (lskip (rstrip (cStr text))) false).1
    have hfound := findCharsOrComment_sublist [] (lskip (rstrip (cStr text))) false
    have hskip := lskip_sublist (rstrip (cStr text))
    have hstrip := rstrip_sublist (cStr text)
    rw [show rstrip _ = text from h] at hvalue
    have hcStr : cStr text = text :=
      (cStr_sublist text).antisymm (((hvalue.trans hfound).trans hskip).trans hstrip)
    rw [hcStr] at hvalue hfound hskip hstrip
    have hrstrip : rstrip text = text := hstrip.antisymm ((hvalue.trans hfound).trans hskip)
    rw [hrstrip] at hvalue hfound hskip
    have hlskip : lskip text = text := hskip.antisymm (hvalue.trans hfound)
    rw [hlskip] at hvalue hfound
    exact ⟨cStr_eq_self_iff.mp hcStr, lskip_eq_self_iff.mp hlskip, rstrip_eq_self_iff.mp hrstrip,
      hcomment.mp (hfound.antisymm hvalue)⟩
  · intro h
    have hrstrip := rstrip_eq_self_iff.mpr h.last
    rw [readValue, cStr_eq_self_iff.mpr h.zero, hrstrip, lskip_eq_self_iff.mpr h.head,
      hcomment.mpr h.uncommented, hrstrip]

/-! ## The lines of the written file -/

theorem isName_name (entry : CfgEntry) : IsName entry.name := by
  have hnil : entry.name ≠ [] := by cases entry <;> decide
  have hbytes : (entry.name.all fun c => c = 95 ∨ 65 ≤ c ∧ c ≤ 90) = true := by
    cases entry <;> decide
  exact ⟨hnil, fun c hc => of_decide_eq_true (List.all_eq_true.mp hbytes c hc)⟩

theorem length_name_le (entry : CfgEntry) : entry.name.length ≤ 25 := by
  cases entry <;> decide

section Lines

variable (store : CfgEntry → Bytes) (entry : CfgEntry)

def entryText : Bytes := entry.name ++ 61 :: store entry ++ [10]

def entryLines : List Bytes := fgets 200 [] (entryText store entry)

/-- What follows the delimiter on the first line of an entry. -/
def firstText : Bytes := ((entryLines store entry).headD []).drop (entry.name.length + 1)

def overflow : List Bytes := (entryLines store entry).tail

theorem entryLines_eq :
    entryLines store entry =
      (entry.name ++ 61 :: firstText store entry) :: overflow store entry := by
  have hlength := length_name_le entry
  have hstem : (10 : UInt8) ∉ entry.name ++ [61] := by
    have hname : (10 : UInt8) ∉ entry.name := (isName_name entry).not_mem (by decide)
    simp [hname]
  have hfits : ([] : Bytes).length + (entry.name ++ [61]).length < 200 - 1 := by
    rw [List.length_append, List.length_nil, List.length_singleton]
    omega
  have htext : entryText store entry = (entry.name ++ [61]) ++ (store entry ++ [10]) := by
    simp [entryText]
  obtain ⟨more, rest, hlines⟩ : ∃ more rest,
      fgets 200 (entry.name ++ [61]) (store entry ++ [10]) = (entry.name ++ [61] ++ more) :: rest :=
    exists_fgets_cons (by simp) _
  have hentry : entryLines store entry = (entry.name ++ 61 :: more) :: rest := by
    rw [entryLines, htext, fgets_append_of_lt hstem [] _ hfits, List.nil_append, hlines,
      List.append_assoc, List.singleton_append]
  have hfirst : firstText store entry = more := by
    rw [firstText, hentry, List.headD_cons, List.drop_append]
    simp
  rw [overflow, hfirst, hentry, List.tail_cons]

theorem flatten_entryLines :
    entry.name ++ 61 :: firstText store entry ++ (overflow store entry).flatten =
      entry.name ++ 61 :: store entry ++ [10] := by
  have h : (entryLines store entry).flatten = entryText store entry := flatten_fgets [] _
  rw [entryLines_eq, List.flatten_cons] at h
  exact h

theorem firstText_starts : firstText store entry <+: store entry ++ [10] := by
  have h := flatten_entryLines store entry
  rw [List.append_assoc, List.append_assoc] at h
  refine ⟨(overflow store entry).flatten, ?_⟩
  simpa using List.append_cancel_left h

theorem mem_entryLines_first :
    entry.name ++ 61 :: firstText store entry ∈ entryLines store entry := by
  rw [entryLines_eq]
  exact List.mem_cons_self

theorem not_mem_dropLast_of_mem_entryLines {line : Bytes} (h : line ∈ entryLines store entry) :
    10 ∉ line.dropLast :=
  not_mem_dropLast_of_mem_fgets List.not_mem_nil h

theorem length_firstText_le : entry.name.length + 1 + (firstText store entry).length ≤ 199 := by
  have hempty : ([] : Bytes).length < 200 - 1 := by decide
  have h := length_le_of_mem_fgets hempty (mem_entryLines_first store entry)
  rw [List.length_append, List.length_cons] at h
  omega

theorem not_mem_dropLast_firstText : 10 ∉ (firstText store entry).dropLast := by
  have h := not_mem_dropLast_of_mem_entryLines store entry (mem_entryLines_first store entry)
  cases hfirst : firstText store entry with
  | nil => exact List.not_mem_nil
  | cons c rest =>
      rw [hfirst, List.dropLast_append_of_ne_nil (by simp)] at h
      refine fun hmem => h (List.mem_append_right _ ?_)
      rw [List.dropLast_cons_of_ne_nil (by simp)]
      exact List.mem_cons_of_mem _ hmem

end Lines

def heading : Bytes := iniFileComments ++ ascii "\n[SETTINGS]"

def fileLines (store : CfgEntry → Bytes) : List Bytes :=
  CfgEntry.all.flatMap (entryLines store)

theorem fgets_flatMap (store : CfgEntry → Bytes) (entries : List CfgEntry) :
    fgets 200 [] (entries.flatMap (entryText store)) = entries.flatMap (entryLines store) := by
  induction entries with
  | nil => rfl
  | cons entry entries ih =>
      have htext : (entry :: entries).flatMap (entryText store) =
          (entry.name ++ 61 :: store entry) ++ 10 :: entries.flatMap (entryText store) := by
        simp [entryText]
      rw [htext, fgets_append, ih, List.flatMap_cons, entryLines, entryText]

theorem text_eq (config : ConfigInstance) :
    config.text = heading ++ 10 :: CfgEntry.all.flatMap (entryText config.parser.configStore) := by
  have hentry : ∀ entry, entryText config.parser.configStore entry =
      entry.name ++ ascii "=" ++ config.parser.configStore entry ++ ascii "\n" := by
    intro entry
    have hequals : ascii "=" = [61] := by decide
    have hbreak : ascii "\n" = [10] := by decide
    simp [entryText, hequals, hbreak]
  have hsection : ascii "\n" ++ ascii "[SETTINGS]\n" = ascii "\n[SETTINGS]" ++ [10] := by decide
  have hheading : iniFileComments ++ ascii "\n" ++ ascii "[SETTINGS]\n" = heading ++ [10] := by
    rw [heading, List.append_assoc, hsection, List.append_assoc]
  rw [ConfigInstance.text, hheading, List.append_assoc, List.singleton_append, funext hentry]

/-! ## The scan of the written file -/

def headed : State := (fgets 200 [] (heading ++ [10])).foldl scanLine .start

theorem headed_eq : headed = ⟨ascii "SETTINGS", [], 12, 0, []⟩ := by
  have hfields : headed.iniSection = ascii "SETTINGS" ∧ headed.prevName = [] ∧
      headed.lineno = 12 ∧ headed.error = 0 ∧ headed.handled = [] := by decide +kernel
  generalize headed = s at hfields
  obtain ⟨iniSection, prevName, lineno, error, handled⟩ := s
  obtain ⟨rfl, rfl, rfl, rfl, rfl⟩ := hfields
  rfl

theorem lineno_headed : headed.lineno ≠ 0 := by
  rw [headed_eq]
  decide

theorem parseStream_text (config : ConfigInstance) :
    parseStream config.text = (fileLines config.parser.configStore).foldl scanLine headed := by
  rw [parseStream, text_eq, fgets_append, List.foldl_append, fgets_flatMap, headed, fileLines]

theorem lineno_scanLine (s : State) (line : Bytes) : (scanLine s line).lineno = s.lineno + 1 :=
  lineno_scanStart _ _ _

theorem lineno_foldl (lines : List Bytes) (s : State) :
    (lines.foldl scanLine s).lineno = s.lineno + lines.length := by
  induction lines generalizing s with
  | nil => rfl
  | cons line lines ih =>
      rw [List.foldl_cons, ih, lineno_scanLine, List.length_cons, Nat.add_assoc, Nat.add_comm 1]

theorem foldl_breaks {lines : List Bytes} (hlines : ∀ line ∈ lines, line = [10]) {s : State}
    (hlineno : s.lineno ≠ 0) :
    lines.foldl scanLine s = { s with lineno := s.lineno + lines.length } := by
  induction lines generalizing s with
  | nil => rfl
  | cons line lines ih =>
      rw [List.foldl_cons, hlines line List.mem_cons_self, scanLine_break hlineno,
        ih (fun other hother => hlines other (List.mem_cons_of_mem line hother))
          (Nat.succ_ne_zero _), List.length_cons]
      simp only [Nat.add_assoc, Nat.add_comm 1]

section Unbroken

variable {store : CfgEntry → Bytes}

/-- Nothing but line breaks follows the first line of an entry. -/
def Unbroken (store : CfgEntry → Bytes) : Prop :=
  ∀ entry, ∀ line ∈ overflow store entry, line = [10]

/-- What is read for an entry whose value ends on its first line. -/
def readEntry (store : CfgEntry → Bytes) (entry : CfgEntry) : Bytes :=
  readValue (firstText store entry)

theorem foldl_entryLines (h : Unbroken store) (entry : CfgEntry) {s : State}
    (hlineno : s.lineno ≠ 0) :
    let s' := (entryLines store entry).foldl scanLine s
    s'.handled = s.handled ++ [(s.iniSection, entry.name, readEntry store entry)] ∧
      s'.iniSection = s.iniSection ∧ s'.error = s.error ∧ s'.lineno ≠ 0 := by
  rw [entryLines_eq, List.foldl_cons, scanLine_assignment hlineno (isName_name entry),
    foldl_breaks (h entry) (Nat.succ_ne_zero _)]
  exact ⟨rfl, rfl, rfl, Nat.ne_of_gt (Nat.lt_of_lt_of_le (Nat.succ_pos _) (Nat.le_add_right _ _))⟩

theorem foldl_entries (h : Unbroken store) (entries : List CfgEntry) {s : State}
    (hlineno : s.lineno ≠ 0) :
    let s' := (entries.flatMap (entryLines store)).foldl scanLine s
    s'.handled = s.handled ++ entries.map (fun entry =>
        (s.iniSection, entry.name, readEntry store entry)) ∧
      s'.error = s.error := by
  induction entries generalizing s with
  | nil => exact ⟨(List.append_nil _).symm, rfl⟩
  | cons entry entries ih =>
      obtain ⟨hhandled, hsection, herror, hlineno'⟩ := foldl_entryLines h entry hlineno
      obtain ⟨hrest, herror'⟩ := ih hlineno'
      rw [List.flatMap_cons, List.foldl_append]
      refine ⟨?_, herror'.trans herror⟩
      rw [hrest, hhandled, hsection, List.append_assoc, List.singleton_append, List.map_cons]

end Unbroken

/-! ## What a file can hold -/

def settingKey (entry : CfgEntry) : Bytes := INIReader.makeKey (ascii "SETTINGS") entry.name

theorem settingKey_injective : Function.Injective settingKey := by
  intro first second
  cases first <;> cases second <;> decide

/-- A call of the handler: section, name and value. -/
abbrev Call := Bytes × Bytes × Bytes

def HasName (calls : List Call) (name : Bytes) : Prop := ∃ call ∈ calls, call.2.1 = name

instance (calls : List Call) (name : Bytes) : Decidable (HasName calls name) :=
  List.decidableBEx _ calls

theorem hasName_concat {calls : List Call} {call : Call} {name : Bytes} :
    HasName (calls ++ [call]) name ↔ HasName calls name ∨ call.2.1 = name := by
  simp [HasName, or_and_right, exists_or]

def valueOf (calls : List Call) (entry : CfgEntry) : Bytes :=
  (INIReader.read calls)[settingKey entry]?.getD []

def creditOf (calls : List Call) (entry : CfgEntry) : Nat :=
  (if HasName calls entry.name then entry.name.length else 0) + ink (valueOf calls entry)

/-- The bytes of the names that were handled and of the values that were read. -/
def credit (calls : List Call) : Nat := (CfgEntry.all.map (creditOf calls)).sum

theorem sum_map_ite_le {α : Type} {p : α → Prop} [DecidablePred p]
    (hunique : ∀ a b, p a → p b → a = b) (cost : Nat) {l : List α} (hl : l.Nodup) :
    (l.map fun a => if p a then cost else 0).sum ≤ cost := by
  induction l with
  | nil => exact Nat.zero_le cost
  | cons a l ih =>
      obtain ⟨ha, hrest⟩ := List.nodup_cons.mp hl
      rw [List.map_cons, List.sum_cons]
      by_cases hp : p a
      · have hzero : (l.map fun a => if p a then cost else 0).sum = 0 := by
          refine List.sum_eq_zero fun x hx => ?_
          obtain ⟨b, hb, rfl⟩ := List.mem_map.mp hx
          exact if_neg fun hpb => ha (hunique a b hp hpb ▸ hb)
        rw [hzero, if_pos hp, Nat.add_zero]
      · rw [if_neg hp, Nat.zero_add]
        exact ih hrest

/-- The credit of a name that has not been handled; names of 49 bytes may be cut. -/
def newName (calls : List Call) (name : Bytes) : Nat :=
  if HasName calls name ∨ 49 ≤ name.length then 0 else ink name

theorem valueOf_concat_le (calls : List Call) (call : Call) (entry : CfgEntry) :
    ink (valueOf (calls ++ [call]) entry) ≤ ink (valueOf calls entry) +
      if INIReader.makeKey call.1 call.2.1 = settingKey entry then ink call.2.2 else 0 := by
  rw [valueOf, INIReader.read_concat, INIReader.getElem?_valueHandler]
  split
  next h =>
      have hbreak : ink (ascii "\n") = 0 := by decide
      dsimp only
      rw [Option.getD_some, ink_append, valueOf]
      split
      next hnil => rw [hnil]
      next => rw [ink_append, hbreak, Nat.add_zero]
  next => exact le_rfl

theorem creditOf_concat_le (calls : List Call) (call : Call) (entry : CfgEntry) :
    creditOf (calls ++ [call]) entry ≤ creditOf calls entry +
      ((if call.2.1 = entry.name then newName calls call.2.1 else 0) +
        if INIReader.makeKey call.1 call.2.1 = settingKey entry then ink call.2.2 else 0) := by
  have hvalue := valueOf_concat_le calls call entry
  have hname : (if HasName (calls ++ [call]) entry.name then entry.name.length else 0) ≤
      (if HasName calls entry.name then entry.name.length else 0) +
        if call.2.1 = entry.name then newName calls call.2.1 else 0 := by
    have hlength := length_name_le entry
    by_cases hold : HasName calls entry.name
    · rw [if_pos (hasName_concat.mpr (.inl hold)), if_pos hold]
      exact Nat.le_add_right _ _
    by_cases hnew : call.2.1 = entry.name
    · have hink := (isName_name entry).ink_eq
      rw [if_pos (hasName_concat.mpr (.inr hnew)), if_neg hold, if_pos hnew, newName, hnew,
        if_neg (not_or_intro hold (by omega)), hink]
      omega
    · rw [if_neg (fun h => (hasName_concat.mp h).elim hold hnew)]
      exact Nat.zero_le _
  unfold creditOf
  omega

theorem credit_concat_le (calls : List Call) (call : Call) :
    credit (calls ++ [call]) ≤ credit calls + (newName calls call.2.1 + ink call.2.2) := by
  have hnames : ∀ first second : CfgEntry, call.2.1 = first.name → call.2.1 = second.name →
      first = second := by
    intro first second hfirst hsecond
    refine settingKey_injective ?_
    rw [settingKey, settingKey, ← hfirst, ← hsecond]
  have hkeys : ∀ first second : CfgEntry,
      INIReader.makeKey call.1 call.2.1 = settingKey first →
        INIReader.makeKey call.1 call.2.1 = settingKey second → first = second :=
    fun first second hfirst hsecond => settingKey_injective (hfirst.symm.trans hsecond)
  have hname := sum_map_ite_le hnames (newName calls call.2.1) CfgEntry.nodup_all
  have hvalue := sum_map_ite_le hkeys (ink call.2.2) CfgEntry.nodup_all
  calc
    credit (calls ++ [call])
      ≤ (CfgEntry.all.map fun entry => creditOf calls entry +
          ((if call.2.1 = entry.name then newName calls call.2.1 else 0) +
            if INIReader.makeKey call.1 call.2.1 = settingKey entry then ink call.2.2
            else 0)).sum :=
        List.sum_le_sum fun entry _ => creditOf_concat_le calls call entry
    _ ≤ credit calls + (newName calls call.2.1 + ink call.2.2) := by
        rw [List.sum_map_add, List.sum_map_add]
        exact Nat.add_le_add_left (Nat.add_le_add hname hvalue) _

/-! ## The cost of a line -/

/-- A name that a line can continue has been handled, unless it was cut. -/
def Remembers (s : State) : Prop :=
  s.prevName ≠ [] → s.prevName.length < 49 → HasName s.handled s.prevName

def inked (line : Bytes) : Bool := ink line ≠ 0

/-- A line that is not blank costs more than the scanner takes from it. -/
theorem credit_scanLine {s : State} (hlineno : s.lineno ≠ 0) (hs : Remembers s) {line : Bytes}
    (hline : 10 ∉ line.dropLast) :
    credit (scanLine s line).handled + (inked line).toNat ≤ credit s.handled + ink line ∧
      Remembers (scanLine s line) := by
  have hinked : (inked line).toNat ≤ ink line := by
    unfold inked
    by_cases h : ink line = 0
    · simp [h]
    · simp [h]
      omega
  have hone : (inked line).toNat ≤ 1 := Bool.toNat_le _
  cases scanLine_effect hlineno hline with
  | quiet hhandled hprev =>
      refine ⟨?_, ?_⟩
      · rw [hhandled]
        exact Nat.add_le_add_left hinked _
      · rw [Remembers, hhandled]
        rcases hprev with hprev | hprev
        · rw [hprev]
          exact hs
        · exact fun hne => absurd hprev hne
  | assigned name value hhandled hprev hink =>
      -- The delimiter belongs to neither the name nor the value: it pays for the line.
      have hcredit := credit_concat_le s.handled (s.iniSection, name, value)
      have hnew : newName s.handled name ≤ ink name := by
        unfold newName
        split
        · exact Nat.zero_le _
        · exact le_rfl
      refine ⟨?_, ?_⟩
      · rw [hhandled]
        dsimp only at hcredit
        omega
      · rw [Remembers, hhandled, hprev, hasName_concat]
        intro _ hlength
        have hwhole : strncpy0 name 50 = name := by
          rw [strncpy0, List.length_take] at hlength
          exact List.take_of_length_le (by omega)
        exact .inr hwhole.symm
  | continued value hname hhandled hprev hink =>
      -- The name has its credit already; the space before the value pays for the line.
      have hcredit := credit_concat_le s.handled (s.iniSection, s.prevName, value)
      have hnew : newName s.handled s.prevName = 0 := by
        refine if_pos ?_
        by_cases hlength : s.prevName.length < 49
        · exact .inl (hs hname hlength)
        · exact .inr (by omega)
      refine ⟨?_, ?_⟩
      · rw [hhandled]
        dsimp only at hcredit
        omega
      · rw [Remembers, hhandled, hprev, hasName_concat]
        exact fun hne hlength => .inl (hs hne hlength)

theorem credit_foldl {lines : List Bytes} (hlines : ∀ line ∈ lines, 10 ∉ line.dropLast)
    {s : State} (hlineno : s.lineno ≠ 0) (hs : Remembers s) :
    credit (lines.foldl scanLine s).handled + lines.countP inked ≤
      credit s.handled + (lines.map ink).sum := by
  induction lines generalizing s with
  | nil => exact le_rfl
  | cons line lines ih =>
      obtain ⟨hcredit, hnext⟩ := credit_scanLine hlineno hs (hlines line List.mem_cons_self)
      have hrest := ih (fun other hother => hlines other (List.mem_cons_of_mem line hother))
        (by rw [lineno_scanLine]; exact Nat.succ_ne_zero _) hnext
      have hcount : (line :: lines).countP inked = lines.countP inked + (inked line).toNat := by
        rw [List.countP_cons]
        cases inked line <;> rfl
      rw [List.foldl_cons, List.map_cons, List.sum_cons, hcount]
      omega

theorem handled_scanLine {s : State} (hlineno : s.lineno ≠ 0) {line : Bytes}
    (hline : 10 ∉ line.dropLast) : s.handled ⊆ (scanLine s line).handled := by
  cases scanLine_effect hlineno hline with
  | quiet hhandled hprev => rw [hhandled]; exact List.Subset.refl _
  | assigned name value hhandled hprev hink =>
      rw [hhandled]
      exact List.subset_append_left _ _
  | continued value hname hhandled hprev hink =>
      rw [hhandled]
      exact List.subset_append_left _ _

theorem handled_foldl {lines : List Bytes} (hlines : ∀ line ∈ lines, 10 ∉ line.dropLast)
    {s : State} (hlineno : s.lineno ≠ 0) : s.handled ⊆ (lines.foldl scanLine s).handled := by
  induction lines generalizing s with
  | nil => exact List.Subset.refl _
  | cons line lines ih =>
      refine List.Subset.trans (handled_scanLine hlineno (hlines line List.mem_cons_self)) ?_
      exact ih (fun other hother => hlines other (List.mem_cons_of_mem line hother))
        (by rw [lineno_scanLine]; exact Nat.succ_ne_zero _)

section WholeFile

variable (store : CfgEntry → Bytes)

def handledOf : List Call := ((fileLines store).foldl scanLine headed).handled

theorem not_mem_dropLast_of_mem_fileLines {line : Bytes} (h : line ∈ fileLines store) :
    10 ∉ line.dropLast := by
  obtain ⟨entry, -, hline⟩ := List.mem_flatMap.mp h
  exact not_mem_dropLast_of_mem_entryLines store entry hline

theorem hasName_handledOf (entry : CfgEntry) : HasName (handledOf store) entry.name := by
  have hmem : entry.name ++ 61 :: firstText store entry ∈ fileLines store :=
    List.mem_flatMap.mpr ⟨entry, CfgEntry.mem_all entry, mem_entryLines_first store entry⟩
  have hlines : ∀ line ∈ fileLines store, 10 ∉ line.dropLast :=
    fun _ => not_mem_dropLast_of_mem_fileLines store
  obtain ⟨before, after, hsplit⟩ := List.append_of_mem hmem
  let s := before.foldl scanLine headed
  have hlineno : s.lineno ≠ 0 := by
    rw [lineno_foldl]
    exact mt Nat.eq_zero_of_add_eq_zero_right lineno_headed
  have hnext : (scanLine s (entry.name ++ 61 :: firstText store entry)).lineno ≠ 0 := by
    rw [lineno_scanLine]
    exact Nat.succ_ne_zero _
  rw [hsplit] at hlines
  have hafter := handled_foldl
    (fun line hline => hlines line (List.mem_append_right _ (List.mem_cons_of_mem _ hline))) hnext
  rw [handledOf, hsplit, List.foldl_append, List.foldl_cons]
  refine ⟨(s.iniSection, entry.name, readValue (firstText store entry)), hafter ?_, rfl⟩
  rw [scanLine_assignment hlineno (isName_name entry)]
  simp [State.handle]

theorem ink_entryText (entry : CfgEntry) :
    ink (entryText store entry) = entry.name.length + ink (store entry) + 1 := by
  have hcons : ink (61 :: store entry) = ink (store entry) + 1 := ink_cons_of_ne (by decide) _
  rw [entryText, ink_append, ink_append, hcons, (isName_name entry).ink_eq]
  rfl

theorem sum_ink_fileLines :
    ((fileLines store).map ink).sum =
      (CfgEntry.all.map fun entry => entry.name.length + ink (store entry) + 1).sum := by
  rw [fileLines]
  generalize CfgEntry.all = entries
  induction entries with
  | nil => rfl
  | cons entry entries ih =>
      have hentry : ((entryLines store entry).map ink).sum = ink (entryText store entry) := by
        rw [← ink_flatten, entryLines, flatten_fgets, List.nil_append]
      rw [List.flatMap_cons, List.map_append, List.sum_append, ih, hentry, ink_entryText,
        List.map_cons, List.sum_cons]

theorem countP_fileLines :
    (fileLines store).countP inked =
      (CfgEntry.all.map fun entry => (overflow store entry).countP inked + 1).sum := by
  rw [fileLines, List.countP_flatMap]
  refine congrArg List.sum (List.map_congr_left fun entry _ => ?_)
  have hfirst : inked (entry.name ++ 61 :: firstText store entry) = true := by
    have hcons : ink (61 :: firstText store entry) = ink (firstText store entry) + 1 :=
      ink_cons_of_ne (by decide) _
    have hne : ink (entry.name ++ 61 :: firstText store entry) ≠ 0 := by
      rw [ink_append, hcons]
      exact Nat.succ_ne_zero _
    exact decide_eq_true hne
  rw [Function.comp_apply, entryLines_eq, List.countP_cons_of_pos hfirst]

theorem eq_break_of_not_inked {line : Bytes} (hnil : line ≠ []) (hline : 10 ∉ line.dropLast)
    (h : ¬ inked line = true) : line = [10] := by
  have hbreaks : ∀ c ∈ line, c = 10 := by
    refine ink_eq_zero_iff.mp ?_
    simpa [inked] using h
  have hempty : line.dropLast = [] := by
    refine List.eq_nil_iff_forall_not_mem.mpr fun c hc => hline ?_
    rw [← hbreaks c (List.dropLast_subset _ hc)]
    exact hc
  rw [← List.dropLast_append_getLast hnil, hempty, hbreaks _ (List.getLast_mem hnil)]
  rfl

theorem mem_entryLines_of_mem_overflow {entry : CfgEntry} {line : Bytes}
    (h : line ∈ overflow store entry) : line ∈ entryLines store entry := List.mem_of_mem_tail h

theorem unbroken_of_valueOf (h : ∀ entry, valueOf (handledOf store) entry = store entry) :
    Unbroken store := by
  have hremembers : Remembers headed := by
    rw [headed_eq]
    exact fun hne => absurd rfl hne
  have hcredit := credit_foldl (fun _ => not_mem_dropLast_of_mem_fileLines store) lineno_headed
    hremembers
  have hstart : credit headed.handled = 0 := by
    rw [headed_eq]
    decide +kernel
  have hend : credit (handledOf store) =
      (CfgEntry.all.map fun entry => entry.name.length + ink (store entry)).sum := by
    refine congrArg List.sum (List.map_congr_left fun entry _ => ?_)
    rw [creditOf, if_pos (hasName_handledOf store entry), h]
  have hink := sum_ink_fileLines store
  have hlines := countP_fileLines store
  rw [List.sum_map_add] at hink hlines
  -- The credit of all names and values uses the file up, so further lines are blank.
  have hcount : (CfgEntry.all.map fun entry => (overflow store entry).countP inked).sum = 0 := by
    rw [← handledOf, hend, hstart, hink, hlines] at hcredit
    omega
  intro entry line hmem
  have hmem' := mem_entryLines_of_mem_overflow store hmem
  have hzero : (overflow store entry).countP inked = 0 :=
    List.sum_eq_zero_iff.mp hcount _ (List.mem_map_of_mem (CfgEntry.mem_all entry))
  exact eq_break_of_not_inked (ne_nil_of_mem_fgets hmem')
    (not_mem_dropLast_of_mem_entryLines store entry hmem') (List.countP_eq_zero.mp hzero line hmem)

end WholeFile

/-! ## Values that survive -/

/-- The value is on the line of its entry as a whole, and is read as it is. -/
structure Fits (entry : CfgEntry) (value : Bytes) : Prop where
  short : entry.name.length + 1 + value.length ≤ 199
  oneLine : 10 ∉ value
  isValue : IsValue value

theorem rstrip_concat {c : UInt8} (hc : isspace c = true) (s : Bytes) :
    rstrip (s ++ [c]) = rstrip s := List.rdropWhile_concat_pos isspace s c hc

theorem readValue_concat_break (text : Bytes) : readValue (text ++ [10]) = readValue text := by
  have hstrip : rstrip (cStr (text ++ [10])) = rstrip (cStr text) := by
    have happend : cStr (text ++ [10]) =
        if (cStr text).length = text.length then text ++ [10] else cStr text :=
      List.takeWhile_append
    rw [happend]
    split
    next h =>
        have hwhole : cStr text = text := (List.takeWhile_prefix _).eq_of_length h
        rw [hwhole, rstrip_concat (by decide)]
    next => rfl
  rw [readValue, readValue, hstrip]

theorem not_mem_rstrip {text stripped : Bytes} (htext : 10 ∉ text.dropLast)
    (hstarts : stripped <+: text) : 10 ∉ rstrip stripped := by
  intro hmem
  have hnil := List.ne_nil_of_mem hmem
  have hlast : isspace ((rstrip stripped).getLast hnil) ≠ true :=
    List.rdropWhile_last_not isspace stripped hnil
  obtain ⟨rest, hrest⟩ := (List.rdropWhile_prefix isspace stripped).trans hstarts
  have hsplit : rstrip stripped =
      (rstrip stripped).dropLast ++ [(rstrip stripped).getLast hnil] :=
    (List.dropLast_append_getLast hnil).symm
  rw [hsplit, List.mem_append, List.mem_singleton] at hmem
  rcases hmem with hmem | hmem
  · refine htext ?_
    rw [← hrest, show List.rdropWhile isspace stripped = _ from hsplit, List.append_assoc,
      List.dropLast_append_of_ne_nil (by simp)]
    exact List.mem_append_left _ hmem
  · rw [← hmem] at hlast
    exact hlast (by decide)

section Survival

variable {store : CfgEntry → Bytes} {entry : CfgEntry}

theorem fits_of_readEntry (h : readEntry store entry = store entry) :
    Fits entry (store entry) := by
  have hshort := length_firstText_le store entry
  have hstripped : (readEntry store entry).Sublist (rstrip (cStr (firstText store entry))) :=
    ((rstrip_sublist _).trans (findCharsOrComment_sublist [] _ false)).trans (lskip_sublist _)
  have hlength :=
    ((hstripped.trans (rstrip_sublist _)).trans (cStr_sublist _)).length_le
  have hbreak : 10 ∉ store entry := by
    rw [← h]
    exact fun hmem => not_mem_rstrip (not_mem_dropLast_firstText store entry)
      (List.takeWhile_prefix _) (hstripped.subset hmem)
  rw [h] at hlength
  refine ⟨by omega, hbreak, readValue_eq_self_iff.mp ?_⟩
  rcases List.prefix_concat_iff.mp (firstText_starts store entry) with hall | hvalue
  · rw [readEntry, hall, readValue_concat_break] at h
    exact h
  · rw [readEntry, hvalue.eq_of_length_le hlength] at h
    exact h

theorem entryLines_of_fits (h : Fits entry (store entry)) :
    entryLines store entry = [entry.name ++ 61 :: store entry ++ [10]] ∨
      entryLines store entry = [entry.name ++ 61 :: store entry, [10]] := by
  have hname : (10 : UInt8) ∉ entry.name := (isName_name entry).not_mem (by decide)
  have hline : (10 : UInt8) ∉ entry.name ++ 61 :: store entry := by
    simp [hname, h.oneLine]
  have hlength : (entry.name ++ 61 :: store entry).length ≤ 199 := by
    have hshort := h.short
    rw [List.length_append, List.length_cons]
    omega
  rw [entryLines, entryText]
  generalize entry.name ++ 61 :: store entry = line at hline hlength
  -- A line of 199 bytes fills the buffer, and its break is read as a line of its own.
  rcases hlength.lt_or_eq with hlt | hfull
  · left
    rw [fgets_append_of_lt hline [] [10] (by simpa using hlt), List.nil_append, fgets_cons,
      if_pos (.inl rfl), fgets, if_pos rfl]
  · right
    have hnil : line ≠ [] := by
      rintro rfl
      cases hfull
    obtain ⟨before, c, rfl⟩ := (List.eq_nil_or_concat' line).resolve_left hnil
    have hbefore : (10 : UInt8) ∉ before := fun hmem => hline (List.mem_append_left _ hmem)
    have hlength' : before.length = 198 := by
      rw [List.length_append, List.length_singleton] at hfull
      omega
    rw [List.append_assoc, fgets_append_of_lt hbefore [] _ (by simp [hlength']), List.nil_append,
      List.singleton_append, fgets_cons, if_pos (.inr hfull), fgets_cons, if_pos (.inl rfl), fgets,
      if_pos rfl, List.nil_append]

theorem readEntry_of_fits (h : Fits entry (store entry)) : readEntry store entry = store entry := by
  have hvalue := readValue_eq_self_iff.mpr h.isValue
  rcases entryLines_of_fits h with hlines | hlines
  · have hfirst : firstText store entry = store entry ++ [10] := by
      rw [firstText, hlines]
      simp [List.drop_append]
    rw [readEntry, hfirst, readValue_concat_break, hvalue]
  · have hfirst : firstText store entry = store entry := by
      rw [firstText, hlines]
      simp [List.drop_append]
    rw [readEntry, hfirst, hvalue]

theorem unbroken_of_fits (h : ∀ entry, Fits entry (store entry)) : Unbroken store := by
  intro entry line hline
  rcases entryLines_of_fits (h entry) with hlines | hlines
  · rw [overflow, hlines] at hline
    cases hline
  · rw [overflow, hlines] at hline
    exact List.mem_singleton.mp hline

end Survival

/-! ## The values of the written file -/

def settingCall (value : CfgEntry → Bytes) (entry : CfgEntry) : Call :=
  (ascii "SETTINGS", entry.name, value entry)

theorem mem_read_settings {value : CfgEntry → Bytes} {entries : List CfgEntry} {key : Bytes} :
    key ∈ INIReader.read (entries.map (settingCall value)) ↔
      ∃ entry ∈ entries, settingKey entry = key := by
  rw [INIReader.mem_read_iff]
  simp [settingCall, settingKey]

theorem getElem?_read_settings (value : CfgEntry → Bytes) {entries : List CfgEntry}
    (hentries : entries.Nodup) {entry : CfgEntry} (h : entry ∈ entries) :
    (INIReader.read (entries.map (settingCall value)))[settingKey entry]? =
      some (value entry) := by
  induction entries using List.reverseRecOn with
  | nil => cases h
  | append_singleton entries last ih =>
      rw [List.map_append, List.map_singleton, INIReader.read_concat,
        INIReader.getElem?_valueHandler]
      change (if settingKey last = settingKey entry then _ else _) = _
      obtain ⟨hnodup, -, hdisjoint⟩ := List.nodup_append.mp hentries
      by_cases heq : settingKey last = settingKey entry
      · obtain rfl := settingKey_injective heq
        have hnew : settingKey last ∉ INIReader.read (entries.map (settingCall value)) := by
          rw [mem_read_settings]
          rintro ⟨other, hother, hkey⟩
          exact hdisjoint other hother last (List.mem_singleton_self last)
            (settingKey_injective hkey)
        have hnone : (INIReader.read (entries.map (settingCall value)))[settingKey last]? = none :=
          Std.ExtTreeMap.getElem?_eq_none hnew
        rw [if_pos rfl, hnone]
        rfl
      · have hmem : entry ∈ entries := by
          rcases List.mem_append.mp h with hmem | hlast
          · exact hmem
          · exact absurd (by rw [List.mem_singleton.mp hlast]) heq
        rw [if_neg heq]
        exact ih hnodup hmem

theorem handledOf_of_unbroken {store : CfgEntry → Bytes} (h : Unbroken store) :
    handledOf store = CfgEntry.all.map (settingCall (readEntry store)) ∧
      ((fileLines store).foldl scanLine headed).error = 0 := by
  obtain ⟨hhandled, herror⟩ := foldl_entries h CfgEntry.all lineno_headed
  rw [headed_eq] at hhandled herror
  rw [handledOf, fileLines, headed_eq]
  exact ⟨hhandled, herror⟩

theorem valueOf_of_unbroken {store : CfgEntry → Bytes} (h : Unbroken store) (entry : CfgEntry) :
    valueOf (handledOf store) entry = readEntry store entry := by
  rw [valueOf, (handledOf_of_unbroken h).1,
    getElem?_read_settings _ CfgEntry.nodup_all (CfgEntry.mem_all entry), Option.getD_some]

theorem valueOf_handledOf_iff (store : CfgEntry → Bytes) :
    (∀ entry, valueOf (handledOf store) entry = store entry) ↔
      ∀ entry, Fits entry (store entry) := by
  constructor
  · intro h entry
    refine fits_of_readEntry ?_
    rw [← valueOf_of_unbroken (unbroken_of_valueOf store h), h]
  · intro h entry
    rw [valueOf_of_unbroken (unbroken_of_fits h), readEntry_of_fits (h entry)]

theorem read_of_fits {store : CfgEntry → Bytes} (h : ∀ entry, Fits entry (store entry)) :
    handledOf store = CfgEntry.all.map (settingCall store) ∧
      ((fileLines store).foldl scanLine headed).error = 0 := by
  obtain ⟨hhandled, herror⟩ := handledOf_of_unbroken (unbroken_of_fits h)
  refine ⟨hhandled.trans (List.map_congr_left fun entry _ => ?_), herror⟩
  rw [settingCall, readEntry_of_fits (h entry), settingCall]

/-! ## The round trip -/

theorem configFile_writeConfigFile {disk : Disk} (hopens : disk.opens = true)
    (config : ConfigInstance) :
    (config.writeConfigFile disk).configFile = some ⟨config.text, disk.rereads, true⟩ := by
  obtain ⟨configFile, creatable⟩ := disk
  unfold ConfigInstance.writeConfigFile Disk.rereads
  cases configFile with
  | none =>
      have hcreatable : creatable = true := hopens
      dsimp only
      rw [if_pos hcreatable]
  | some file =>
      have hwritable : file.writable = true := hopens
      dsimp only
      rw [if_pos hwritable, hwritable]

section Reloading

variable {config : ConfigInstance} {disk : Disk}

theorem ofFile_writeConfigFile (hopens : disk.opens = true) (hrereads : disk.rereads = true) :
    INIReader.ofFile (config.writeConfigFile disk) =
      ⟨((fileLines config.parser.configStore).foldl scanLine headed).error,
        INIReader.read (handledOf config.parser.configStore)⟩ := by
  rw [INIReader.ofFile, configFile_writeConfigFile hopens]
  dsimp only
  rw [if_pos hrereads, parseStream_text, handledOf]

theorem loadConfigFile_of_loads (hopens : disk.opens = true)
    (hloads : (config.loadConfigFile (config.writeConfigFile disk)).1 = true) :
    disk.rereads = true ∧
      (config.loadConfigFile (config.writeConfigFile disk)).2.shown =
        .loadConfigFile (INIReader.read (handledOf config.parser.configStore)) := by
  have hrereads : disk.rereads = true := by
    by_contra hnot
    have herror : (INIReader.ofFile (config.writeConfigFile disk)).error ≠ 0 := by
      rw [INIReader.ofFile, configFile_writeConfigFile hopens]
      dsimp only
      rw [if_neg hnot]
      decide
    rw [ConfigInstance.loadConfigFile, if_pos herror] at hloads
    cases hloads
  refine ⟨hrereads, ?_⟩
  rw [ConfigInstance.loadConfigFile, ofFile_writeConfigFile hopens hrereads] at hloads ⊢
  dsimp only at hloads ⊢
  split at hloads
  · cases hloads
  next h =>
      rw [if_neg h, ConfigInstance.shown]
      rfl

theorem loads_of_fits (hopens : disk.opens = true) (hrereads : disk.rereads = true)
    (h : ∀ entry, Fits entry (config.parser.configStore entry)) :
    (config.loadConfigFile (config.writeConfigFile disk)).1 = true := by
  obtain ⟨-, herror⟩ := read_of_fits h
  rw [ConfigInstance.loadConfigFile, ofFile_writeConfigFile hopens hrereads]
  dsimp only
  rw [herror, if_neg (by decide)]

end Reloading

/-- Writing the file and loading it gives the values that were written, and no other key. -/
structure RoundTrips (config : ConfigInstance) (disk : Disk) : Prop where
  loads : (config.loadConfigFile (config.writeConfigFile disk)).1 = true
  values : ∀ entry, (config.loadConfigFile (config.writeConfigFile disk)).2.shown.get entry =
    config.parser.configStore entry
  keys : ∀ key ∈ (config.loadConfigFile (config.writeConfigFile disk)).2.shown.rawConfigMap,
    ∃ entry, settingKey entry = key

theorem fits_of_roundTrips {config : ConfigInstance} {disk : Disk} (hopens : disk.opens = true)
    (h : RoundTrips config disk) :
    disk.rereads = true ∧ ∀ entry, Fits entry (config.parser.configStore entry) := by
  obtain ⟨hrereads, hshown⟩ := loadConfigFile_of_loads hopens h.loads
  have hvalues := h.values
  rw [hshown] at hvalues
  exact ⟨hrereads, (valueOf_handledOf_iff _).mp hvalues⟩

theorem roundTrips_of_fits {config : ConfigInstance} {disk : Disk} (hopens : disk.opens = true)
    (hrereads : disk.rereads = true)
    (h : ∀ entry, Fits entry (config.parser.configStore entry)) : RoundTrips config disk := by
  have hloads := loads_of_fits hopens hrereads h
  obtain ⟨-, hshown⟩ := loadConfigFile_of_loads hopens hloads
  refine ⟨hloads, ?_, ?_⟩
  · rw [hshown]
    exact (valueOf_handledOf_iff _).mpr h
  · rw [hshown, ConfigParser.loadConfigFile, (read_of_fits h).1]
    intro key hkey
    obtain ⟨entry, -, hentry⟩ := mem_read_settings.mp hkey
    exact ⟨entry, hentry⟩

/--
A written file gives back what was written if it can be read and if every value
fits, and only then.
-/
theorem roundTrips_iff (config : ConfigInstance) (disk : Disk) :
    (disk.opens = true → RoundTrips config disk) ↔
      (disk.opens = true →
        disk.rereads = true ∧ ∀ entry, Fits entry (config.parser.configStore entry)) := by
  constructor
  · exact fun h hopens => fits_of_roundTrips hopens (h hopens)
  · intro h hopens
    obtain ⟨hrereads, hfits⟩ := h hopens
    exact roundTrips_of_fits hopens hrereads hfits

/-- A file that sets one entry twice, as the reader allows. -/
def repeatedHost : Disk :=
  ⟨some ⟨ascii "[SETTINGS]\nREDIS_HOST=a\nREDIS_HOST=b\n", true, true⟩, true⟩

theorem repeatedHost_not_roundTrips :
    ¬ (repeatedHost.opens = true →
      RoundTrips (ConfigInstance.new.loadConfigFile repeatedHost).2 repeatedHost) := by
  intro h
  obtain ⟨-, hfits⟩ := fits_of_roundTrips rfl (h rfl)
  refine (hfits .redisHost).oneLine ?_
  decide +kernel

end Can2Rest.Properties
