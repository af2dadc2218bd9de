import TableMarkup.Proofs.Markup.AttributeLaws
import TableMarkup.Rendering.Recording

/-!
# Keys

The key of an element is its own, or it is made up of the tag of the element and the number of the
tables that have been made before. What the recording renderer does with an element depends on the
number only where the element has no key of its own.

* `Recording.numberedKey_inj`: a numbered key tells tag and number.
* `Recording.keyAt`, `Recording.stamped`: the key of an element and its attributes with the key on
  them, for a given number of tables.
* `Recording.keyOf?_wear_stamped`, `Recording.keyOf?_wear_erase`: an element that is stamped has its
  key from then on, and does not lose it with its marker.
* `Recording.initialise_of_free`, `Recording.initialise_of_occupied`: the two things that can come of
  a try.
-/

namespace TableMarkup

namespace Text

/-- A character that is no digit is not in the text of a number. -/
theorem not_mem_digits {c : Char} (h : digit? c = none) (n : Nat) : c ∉ digits n := by
  have hchar {d : Nat} (hd : d < 10) : c ≠ digitChar d := by
    rintro rfl
    rw [digit?_digitChar hd] at h
    contradiction
  rw [digits]
  split
  · next hn => simpa using hchar hn
  · next hn =>
    rw [List.mem_append, List.mem_singleton]
    -- It is in the digits before the last one, or it is the last one.
    rintro (hc | hc)
    · exact not_mem_digits h (n / 10) hc
    · exact hchar (Nat.mod_lt n (by decide)) hc
termination_by n

theorem digits_injective {n k : Nat} (h : digits n = digits k) : n = k := by
  have hread : ofDigits? (digits n) = ofDigits? (digits k) := by rw [h]
  rw [ofDigits?_digits, ofDigits?_digits] at hread
  exact Option.some.inj hread

end Text

/-- Lists are parted alike at the last place where an item stands. -/
theorem append_cons_inj_of_not_mem {α : Type} {x : α} {as bs cs ds : List α} (hb : x ∉ bs)
    (hd : x ∉ ds) (h : as ++ x :: bs = cs ++ x :: ds) : as = cs ∧ bs = ds := by
  -- One of the two parts in front is the longer one.
  obtain ⟨mid, rfl, hmid⟩ | ⟨mid, rfl, hmid⟩ := List.append_eq_append_iff.mp h
  · cases mid with
    | nil => simp_all
    | cons y mid =>
      rw [List.cons_append, List.cons.injEq] at hmid
      -- The item would stand once more behind the parting.
      exact absurd (hmid.2 ▸ List.mem_append_right mid List.mem_cons_self) hb
  · cases mid with
    | nil => simp_all
    | cons y mid =>
      rw [List.cons_append, List.cons.injEq] at hmid
      exact absurd (hmid.2 ▸ List.mem_append_right mid List.mem_cons_self) hd

theorem TableConfig.destroys_iff {c : TableConfig} :
    c.destroys ↔ c.get? OptionName.destroy = some (.bool true) := by
  rw [destroys]
  cases c.get? OptionName.destroy with
  | none => simp
  | some v => cases v <;> simp [Value.bool?]

namespace Recording

/-! ## The key of an element -/

@[simp] theorem lower_keyAttribute : Text.lower keyAttribute = keyAttribute := by decide

/-- The key for a tag that is made up when there have been `n` tables. -/
def numberedKey (tag : String) (n : Nat) : String :=
  tag ++ "-" ++ String.ofList (Text.digits n)

/-- A numbered key tells tag and number, because the number holds no dash. -/
theorem numberedKey_inj {tag tag' : String} {n n' : Nat}
    (h : numberedKey tag n = numberedKey tag' n') : tag = tag' ∧ n = n' := by
  have hdash (k : Nat) : '-' ∉ Text.digits k := Text.not_mem_digits (by decide) k
  have hlists := congrArg String.toList h
  simp only [numberedKey, String.toList_append, String.toList_ofList, List.append_assoc] at hlists
  -- A tag may hold dashes of its own; only the last dash of the key parts it.
  obtain ⟨htag, hdigits⟩ := append_cons_inj_of_not_mem (hdash n) (hdash n') hlists
  exact ⟨String.ext htag, Text.digits_injective hdigits⟩

/-- The key of an element when there have been `n` tables. -/
def keyAt (n : Nat) (e : Element) : String :=
  (keyOf? e).getD (numberedKey e.tag n)

/-- The attributes of an element with the key on them, when there have been `n` tables. An element
that has a key of its own is left as it is. -/
def stamped (n : Nat) (e : Element) : Attributes :=
  match keyOf? e with
  | some _ => e.attributes
  | none => e.attributes.insert keyAttribute (.string (numberedKey e.tag n))

theorem keyAt_of_some {e : Element} {key : String} (h : keyOf? e = some key) (n : Nat) :
    keyAt n e = key := by
  rw [keyAt, h, Option.getD_some]

theorem keyAt_of_none {e : Element} (h : keyOf? e = none) (n : Nat) :
    keyAt n e = numberedKey e.tag n := by
  rw [keyAt, h, Option.getD_none]

theorem stamped_of_some {e : Element} {key : String} (h : keyOf? e = some key) (n : Nat) :
    stamped n e = e.attributes := by
  rw [stamped, h]

theorem stamped_of_none {e : Element} (h : keyOf? e = none) (n : Nat) :
    stamped n e = e.attributes.insert keyAttribute (.string (numberedKey e.tag n)) := by
  rw [stamped, h]

theorem keyFor_eq (r : Recording) (e : Element) :
    r.keyFor e = (keyAt r.created e, stamped r.created e) := by
  cases h : keyOf? e with
  | none => rw [keyFor, h, keyAt_of_none h, stamped_of_none h]; rfl
  | some key => rw [keyFor, h, keyAt_of_some h, stamped_of_some h]

theorem keyOf?_eq_none_iff {e : Element} :
    keyOf? e = none ↔ e.id? = none ∧ e.attributes.text? keyAttribute = none := by
  simp [keyOf?]

theorem text?_stamped_of_ne {name : String} (h : Text.lower name ≠ keyAttribute) (n : Nat)
    (e : Element) : (stamped n e).text? name = e.attributes.text? name := by
  have hne : Text.lower name ≠ Text.lower keyAttribute := by
    rw [lower_keyAttribute]
    exact h
  -- Only an element without a key gets a stamp, and the stamp is another attribute.
  cases hkey : keyOf? e with
  | none => rw [stamped_of_none hkey, Attributes.text?_insert_of_ne _ hne]
  | some key => rw [stamped_of_some hkey]

/-- An element that is stamped has the key from then on. -/
theorem keyOf?_wear_stamped (tag : String) (children : List Element) (n : Nat) (e : Element) :
    keyOf? ⟨tag, stamped n e, children⟩ = some (keyAt n e) := by
  cases hkey : keyOf? e with
  | none =>
    -- A stamp is the key only where there is no `id`.
    have hid : e.attributes.text? "id" = none := (keyOf?_eq_none_iff.mp hkey).1
    rw [stamped_of_none hkey, keyAt_of_none hkey, keyOf?, Element.id?,
      Attributes.text?_insert_of_ne _ (by decide), hid, Attributes.text?_insert_string]
    rfl
  | some key =>
    rw [stamped_of_some hkey, keyAt_of_some hkey, ← hkey]
    rfl

/-- Removing an attribute that is neither `id` nor the stamp leaves the key as it is. -/
theorem keyOf?_wear_erase {marker : String} (hid : Text.lower marker ≠ "id")
    (hstamp : Text.lower marker ≠ keyAttribute) (tag : String) (a : Attributes)
    (children : List Element) :
    keyOf? ⟨tag, a.erase marker, children⟩ = keyOf? ⟨tag, a, children⟩ := by
  rw [keyOf?, keyOf?, Element.id?, Element.id?,
    Attributes.text?_erase_of_ne _ (show Text.lower "id" ≠ Text.lower marker from Ne.symm hid),
    Attributes.text?_erase_of_ne _
      (show Text.lower keyAttribute ≠ Text.lower marker from Ne.symm hstamp)]

/-! ## A try at an element -/

/-- Whether a table under a key is there that is not to give way to a configuration. -/
def Occupied (r : Recording) (key : String) (config : TableConfig) : Prop :=
  (r.instance? key).isSome ∧ ¬ config.destroys

instance (r : Recording) (key : String) (config : TableConfig) :
    Decidable (r.Occupied key config) :=
  inferInstanceAs (Decidable (_ ∧ _))

theorem isSome_instance?_iff {r : Recording} {key : String} :
    (r.instance? key).isSome ↔ ∃ i ∈ r.instances, i.key = key := by
  rw [instance?, List.find?_isSome]
  simp only [decide_eq_true_eq]

/-- A table that is to stay is in the way: nothing is made. -/
theorem initialise_of_occupied {r : Recording} {e : Element} {config : TableConfig}
    (h : r.Occupied (keyAt r.created e) config) :
    r.initialise e config =
      ⟨.error (.occupied (keyAt r.created e)), stamped r.created e, r⟩ := by
  simp only [initialise, keyFor_eq]
  rw [if_pos (by simpa [Occupied] using h)]

/-- Nothing is in the way: a table is made under the key. -/
theorem initialise_of_free {r : Recording} {e : Element} {config : TableConfig}
    (h : ¬ r.Occupied (keyAt r.created e) config) :
    r.initialise e config =
      ⟨.ok r.created, stamped r.created e, r.record (keyAt r.created e) config⟩ := by
  simp only [initialise, keyFor_eq]
  rw [if_neg (by simpa [Occupied] using h)]

@[simp] theorem attributes_initialise (r : Recording) (e : Element) (config : TableConfig) :
    (r.initialise e config).attributes = stamped r.created e := by
  by_cases h : r.Occupied (keyAt r.created e) config
  · rw [initialise_of_occupied h]
  · rw [initialise_of_free h]

@[simp] theorem created_record (r : Recording) (key : String) (config : TableConfig) :
    (r.record key config).created = r.created + 1 := rfl

end Recording

end TableMarkup
