import Can2Rest.Main

/-!
# Which keys the scans of the configuration take

Both scans search for a part of the key, read the text after the last `_` as a
number, and narrow it to an identifier.  Neither looks at the rest of the key.
-/

namespace Can2Rest.Properties

open Foundation

/-- The key is `settings`, the literal part, and the numeral of an identifier. -/
def Numbered (literal key : Bytes) (id : UInt16) : Prop :=
  ∃ digits, key = ascii "settings" ++ literal ++ digits ∧ digits ≠ [] ∧
    (∀ c ∈ digits, isDigit c = true) ∧ ofDigits digits = id.toNat

/-- The search finds the literal part, and there is text after the last `_`. -/
def Selected (literal key : Bytes) : Prop := literal <:+: key ∧ Main.lastToken key ≠ []

instance (literal key : Bytes) : Decidable (Selected literal key) := by
  unfold Selected
  infer_instance

theorem selected_of_numbered {before key : Bytes} {id : UInt16}
    (h : Numbered (before ++ [95]) key id) :
    Selected (before ++ [95]) key ∧ UInt16.ofInt (atoi (Main.lastToken key)) = id := by
  obtain ⟨digits, rfl, hne, hdigits, hid⟩ := h
  have hunderscore : 95 ∉ digits := fun hmem => absurd (hdigits 95 hmem) (by decide)
  have hkey : ascii "settings" ++ (before ++ [95]) ++ digits =
      (ascii "settings" ++ before) ++ 95 :: digits := by simp
  have htoken : Main.lastToken (ascii "settings" ++ (before ++ [95]) ++ digits) = digits := by
    rw [hkey, Main.lastToken_append hunderscore]
  have hsmall : ofDigits digits < 2 ^ 31 := by
    have hlt := id.toNat_lt
    omega
  refine ⟨⟨⟨ascii "settings", digits, rfl⟩, ?_⟩, ?_⟩
  · rwa [htoken]
  · rw [htoken, atoi_digits hdigits hsmall, ofInt_natCast, hid, UInt16.ofNat_toNat]

end Can2Rest.Properties
