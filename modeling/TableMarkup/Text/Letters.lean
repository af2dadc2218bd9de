/-!
# Letter case

Markup names carry no letter case: tags, attribute names and option names are compared after their
ASCII capitals are lowered. Characters outside ASCII keep their case and are compared as they are.

* `lower` lowers the ASCII capitals of a text and changes nothing else.
* `lower_lower`: lowering a second time changes nothing.
* `SameLetters` is equality up to ASCII case.
-/

namespace TableMarkup.Text

def lower (s : String) : String :=
  String.ofList (s.toList.map Char.toLower)

@[simp] theorem toList_lower (s : String) : (lower s).toList = s.toList.map Char.toLower := by
  simp [lower]

/-- A letter that has been lowered is no capital. -/
theorem toLower_toLower (c : Char) : c.toLower.toLower = c.toLower := by
  unfold Char.toLower
  by_cases h : c.val ≥ 'A'.val ∧ c.val ≤ 'Z'.val
  -- A capital lies between 65 and 90, and 32 more leads out of this range.
  · have hlow : ¬ (c.val + ('a'.val - 'A'.val) ≥ 'A'.val ∧
        c.val + ('a'.val - 'A'.val) ≤ 'Z'.val) := by
      rintro ⟨_, h₄⟩
      have h₁ : 65 ≤ c.val.toNat := UInt32.le_iff_toNat_le.mp h.1
      have h₂ : c.val.toNat ≤ 90 := UInt32.le_iff_toNat_le.mp h.2
      have h₄ : (c.val + ('a'.val - 'A'.val)).toNat ≤ 90 := UInt32.le_iff_toNat_le.mp h₄
      rw [UInt32.toNat_add, show ('a'.val - 'A'.val).toNat = 32 from rfl] at h₄
      omega
    simp only [h, and_self, ↓reduceDIte]
    rw [dif_neg hlow]
  · rw [dif_neg h, dif_neg h]

@[simp] theorem lower_lower (s : String) : lower (lower s) = lower s := by
  rw [lower, toList_lower, List.map_map, lower]
  congr 2
  funext c
  exact toLower_toLower c

/-- Equality up to the case of ASCII letters. -/
def SameLetters (a b : String) : Prop :=
  lower a = lower b

instance (a b : String) : Decidable (SameLetters a b) :=
  inferInstanceAs (Decidable (lower a = lower b))

/-- What follows `start` in a text that begins with it. -/
def afterPrefix? (start s : String) : Option String :=
  (start.toList.isPrefixOf? s.toList).map String.ofList

end TableMarkup.Text
