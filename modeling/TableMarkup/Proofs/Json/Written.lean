import TableMarkup.Json.Braces
import TableMarkup.Proofs.Json.Tokens

/-!
# Reading what was written

A value without floats has many texts: JSON leaves it to the writer where blanks stand and how the
characters of strings are spelled. The reading machine does not remember which text was chosen. What it
has gone through when it has read a value depends on the value only, so every statement here is about
a value with any text behind it, any brackets open around it, and anyone listening, or nobody if the
value is skipped.

* `Json.FloatFree`, `Json.depth`: values without floats, and how many brackets are open in them at
  once.
* `ValueText`, `ElementText`: the texts of a value, without blanks around them and with them.
* `Machine.run_valueText`: where a value is expected, each of its texts is read as this value.
* `compact_array`, `compact_object`: the texts that are written for arrays and objects are made of the
  texts of what is in them.
* `valueText_compact`: what is written for a value is one of its texts, and `Machine.run_compact` reads
  it.
-/

namespace TableMarkup.Json

variable {σ : Type} {k : Sink σ}

/-! ## Kinds of values -/

mutual
/-- The value itself and every value inside it are of this kind. -/
def Everywhere (P : Json → Prop) : Json → Prop
  | .array items => P (.array items) ∧ EveryItem P items
  | .object members => P (.object members) ∧ EveryMember P members
  | other => P other

def EveryItem (P : Json → Prop) : List Json → Prop
  | [] => True
  | j :: js => Everywhere P j ∧ EveryItem P js

def EveryMember (P : Json → Prop) : List (String × Json) → Prop
  | [] => True
  | (_, j) :: ms => Everywhere P j ∧ EveryMember P ms
end

theorem Everywhere.self {P : Json → Prop} {j : Json} (h : Everywhere P j) : P j := by
  cases j with
  | array items => exact h.1
  | object members => exact h.1
  | _ => exact h

theorem everyItem_iff {P : Json → Prop} {items : List Json} :
    EveryItem P items ↔ ∀ j ∈ items, Everywhere P j := by
  induction items with
  | nil => exact iff_of_true trivial nofun
  | cons j rest ih => rw [EveryItem, ih, List.forall_mem_cons]

theorem everyMember_iff {P : Json → Prop} {members : List (String × Json)} :
    EveryMember P members ↔ ∀ entry ∈ members, Everywhere P entry.2 := by
  induction members with
  | nil => exact iff_of_true trivial nofun
  | cons entry rest ih => rw [EveryMember, ih, List.forall_mem_cons]

def IsNoFloat (j : Json) : Prop :=
  ∀ x, j ≠ .number (.float x)

/-- No number in the value is a float. -/
abbrev FloatFree : Json → Prop :=
  Everywhere IsNoFloat

mutual
/-- How many brackets are open at once in the text of a value, at most. -/
def depth : Json → Nat
  | .array items => depthOfItems items + 1
  | .object members => depthOfMembers members + 1
  | _ => 0

def depthOfItems : List Json → Nat
  | [] => 0
  | j :: js => max (depth j) (depthOfItems js)

def depthOfMembers : List (String × Json) → Nat
  | [] => 0
  | (_, j) :: ms => max (depth j) (depthOfMembers ms)
end

/-! ## Texts of values -/

mutual
/-- The texts of a value, without blanks around them. No text stands for a float here. -/
inductive ValueText : Json → List Char → Prop
  | null : ValueText .null ['n', 'u', 'l', 'l']
  | yes : ValueText (.bool true) ['t', 'r', 'u', 'e']
  | no : ValueText (.bool false) ['f', 'a', 'l', 's', 'e']
  | integer (w : WideInt) : ValueText (.number (.integer w)) (Text.integer w.val)
  | string {x : String} {spelled : List Char} (hspelled : SpellsAll x.toList spelled) :
      ValueText (.string x) ('"' :: (spelled ++ ['"']))
  | emptyArray {blanks : List Char} (hblanks : ∀ c ∈ blanks, Text.isJsonBlank c) :
      ValueText (.array []) ('[' :: (blanks ++ [']']))
  | array {items : List Json} {text : List Char} (hitems : ItemsText items text) :
      ValueText (.array items) ('[' :: (text ++ [']']))
  | emptyObject {blanks : List Char} (hblanks : ∀ c ∈ blanks, Text.isJsonBlank c) :
      ValueText (.object []) ('\x7b' :: (blanks ++ ['\x7d']))
  | object {members : List (String × Json)} {text : List Char} (hmembers : MembersText members text) :
      ValueText (.object members) ('\x7b' :: (text ++ ['\x7d']))

/-- The texts of a value, with blanks around them. -/
inductive ElementText : Json → List Char → Prop
  | around {j : Json} {before text after : List Char} (hbefore : ∀ c ∈ before, Text.isJsonBlank c)
      (htext : ValueText j text) (hafter : ∀ c ∈ after, Text.isJsonBlank c) :
      ElementText j (before ++ (text ++ after))

/-- The texts of items, of which there is one at least. -/
inductive ItemsText : List Json → List Char → Prop
  | last {j : Json} {text : List Char} (htext : ElementText j text) : ItemsText [j] text
  | cons {j : Json} {js : List Json} {text later : List Char} (htext : ElementText j text)
      (hlater : ItemsText js later) : ItemsText (j :: js) (text ++ ',' :: later)

/-- The texts of a member, with blanks around the name and around the value. -/
inductive MemberText : String × Json → List Char → Prop
  | named {name : String} {j : Json} {before spelled after text : List Char}
      (hbefore : ∀ c ∈ before, Text.isJsonBlank c) (hspelled : SpellsAll name.toList spelled)
      (hafter : ∀ c ∈ after, Text.isJsonBlank c) (htext : ElementText j text) :
      MemberText (name, j) (before ++ '"' :: (spelled ++ '"' :: (after ++ ':' :: text)))

/-- The texts of members, of which there is one at least. -/
inductive MembersText : List (String × Json) → List Char → Prop
  | last {entry : String × Json} {text : List Char} (htext : MemberText entry text) :
      MembersText [entry] text
  | cons {entry : String × Json} {ms : List (String × Json)} {text later : List Char}
      (htext : MemberText entry text) (hlater : MembersText ms later) :
      MembersText (entry :: ms) (text ++ ',' :: later)
end

/-- The text of a value begins with a character that neither is blank nor closes an array. -/
theorem ValueText.head {j : Json} {text : List Char} (h : ValueText j text) :
    ∃ c cs, text = c :: cs ∧ Text.isJsonBlank c = false ∧ c ≠ ']' := by
  cases h with
  | integer w =>
    -- An integer begins with a minus sign or with a digit.
    obtain ⟨negative, d, ds, ⟨⟨c, cs, htext, hd, -⟩, -⟩, -⟩ := Literal.isRun_integer w
    rw [htext]
    cases negative with
    | true => exact ⟨_, _, rfl, by decide, by decide⟩
    | false =>
      have hne {x : Char} (hx : Text.digit? x = none) : c ≠ x := by
        rintro rfl
        rw [hd] at hx
        contradiction
      refine ⟨c, cs, rfl, ?_, hne (by decide)⟩
      simp [Text.isJsonBlank, hne (x := ' ') (by decide), hne (x := '\t') (by decide),
        hne (x := '\n') (by decide), hne (x := '\r') (by decide)]
  | _ => exact ⟨_, _, rfl, by decide, by decide⟩

/-! ## Reading them -/

namespace Machine

variable {nesting : List Bracket} {skipped : Option Nat} {s t : σ} {rest : List Char}

/-- A comma or a closing bracket does not go on with a number. -/
theorem ends_of_head {c : Char} (h : c ∈ [',', ']', '\x7d']) : Ends (c :: rest) := by
  rintro _ ⟨⟩
  simp only [List.mem_cons, List.not_mem_nil, or_false] at h
  rcases h with rfl | rfl | rfl <;> decide

/-- If the text of a value leads on, so does one with blanks around it. -/
theorem run_elementText {skipped' : Option Nat} {j : Json} {e : Expecting} {text : List Char}
    (he : e = .value ∨ e = .firstItem) (h : ElementText j text) (hrest : Ends rest)
    (hrun : ∀ {text rest : List Char}, ValueText j text → Ends rest →
      run k ⟨nesting, skipped, .between .value, s⟩ (text ++ rest) =
        run k ⟨nesting, skipped', .between .separator, t⟩ rest) :
    run k ⟨nesting, skipped, .between e, s⟩ (text ++ rest) =
      run k ⟨nesting, skipped', .between .separator, t⟩ rest := by
  obtain ⟨hbefore, hvalue, hafter⟩ := h
  obtain ⟨c, cs, hhead, hblank, hne⟩ := hvalue.head
  rw [List.append_assoc, List.append_assoc, run_blanks hbefore]
  -- The first character of the value stands behind the blanks and closes nothing, so a value is
  -- read.
  have hexpected (behind : List Char) : run k ⟨nesting, skipped, .between e, s⟩ (c :: behind) =
      run k ⟨nesting, skipped, .between .value, s⟩ (c :: behind) := by
    rcases he with rfl | rfl
    · rfl
    · exact run_firstItem_cons hblank hne
  rw [hhead, List.cons_append, hexpected, ← List.cons_append, ← hhead,
    hrun hvalue (ends_blanks hafter hrest), run_blanks hafter]

/-- Behind its name the value of a member is read. -/
theorem run_memberText {skipped' : Option Nat} {name : String} {j : Json} {e : Expecting} {u : σ}
    {text : List Char} (he : e = .firstKey ∨ e = .key) (h : MemberText (name, j) text)
    (hrest : Ends rest) (hkey : k.Told skipped s (.key name) t)
    (hrun : ∀ {text rest : List Char}, ValueText j text → Ends rest →
      run k ⟨nesting, skipped, .between .value, t⟩ (text ++ rest) =
        run k ⟨nesting, skipped', .between .separator, u⟩ rest) :
    run k ⟨nesting, skipped, .between e, s⟩ (text ++ rest) =
      run k ⟨nesting, skipped', .between .separator, u⟩ rest := by
  obtain ⟨hbefore, hspelled, hafter, htext⟩ := h
  rw [List.append_assoc, run_blanks hbefore]
  simp only [List.cons_append, List.append_assoc]
  rw [run_key hspelled hafter he hkey]
  exact run_elementText (.inl rfl) htext hrest hrun

/-- Behind the first member the others are read, if there are any. -/
theorem run_firstMember {name : String} {j : Json} {ms : List (String × Json)} {e : Expecting}
    {u v : σ} {text : List Char} (h : MembersText ((name, j) :: ms) text)
    (he : e = .firstKey ∨ e = .key) (hrest : Ends rest) (hkey : k.Told skipped s (.key name) t)
    (hread : ∀ {text rest : List Char}, ValueText j text → Ends rest →
      run k ⟨.object :: nesting, skipped, .between .value, t⟩ (text ++ rest) =
        run k ⟨.object :: nesting, skipped, .between .separator, u⟩ rest)
    (hlast : ms = [] → u = v)
    (hlater : ∀ {text : List Char}, MembersText ms text →
      run k ⟨.object :: nesting, skipped, .between .key, u⟩ (text ++ rest) =
        run k ⟨.object :: nesting, skipped, .between .separator, v⟩ rest) :
    run k ⟨.object :: nesting, skipped, .between e, s⟩ (text ++ rest) =
      run k ⟨.object :: nesting, skipped, .between .separator, v⟩ rest := by
  cases h with
  | last htext =>
    rw [run_memberText he htext hrest hkey hread, hlast rfl]
  | cons htext hmore =>
    rw [List.append_assoc, List.cons_append,
      run_memberText he htext (ends_of_head (by simp)) hkey hread, run_comma_object]
    exact hlater hmore

/-- What is open around a skipped value is open in front of what is inside it. -/
theorem open_inside (b : Bracket) (h : ∀ n ∈ skipped, n ≤ nesting.length) :
    ∀ n ∈ skipped, n < (b :: nesting).length :=
  fun n hn => Nat.lt_succ_of_le (h n hn)

mutual
/-- Where a value is expected, its text is read: the sink takes its events, and reading goes on behind
it. The nesting of a value that is skipped has no limit. -/
theorem run_valueText {nesting : List Bracket} {s t : σ} {rest text : List Char} {j : Json}
    (h : ValueText j text) (hopen : ∀ n ∈ skipped, n ≤ nesting.length)
    (hdepth : skipped = none → nesting.length + depth j ≤ nestingLimit) (hrest : Ends rest)
    (htakes : k.Takes skipped s (events j) t) :
    run k ⟨nesting, skipped, .between .value, s⟩ (text ++ rest) =
      run k (completed ⟨nesting, skipped, .between .value, t⟩) rest := by
  match j with
  | .null =>
    cases h
    exact run_word .null (by simp) htakes
  | .bool true =>
    cases h
    exact run_word (.truth true) (by simp) htakes
  | .bool false =>
    cases h
    exact run_word (.truth false) (by simp) htakes
  | .number (.integer w) =>
    cases h
    exact run_integer htakes hrest
  | .string x =>
    cases h with
    | string hspelled =>
      rw [List.cons_append, List.append_assoc]
      exact run_spelled hspelled htakes
  | .array items =>
    rw [events, List.cons_append] at htakes
    obtain ⟨s₁, hopens, hinside⟩ := Sink.takes_cons.mp htakes
    rw [depth, Nat.add_comm _ 1, ← Nat.add_assoc] at hdepth
    -- The bracket of this value counts as one level, and is not counted where it is skipped.
    have hroom (hheard : skipped = none) : nesting.length < nestingLimit :=
      Nat.lt_of_lt_of_le (Nat.lt_add_right _ (Nat.lt_succ_self _)) (hdepth hheard)
    cases h with
    -- Between the brackets there are only blanks, or items with commas between them.
    | emptyArray hblanks =>
      rw [List.cons_append, run_open (b := .array) (by simp) hopens hroom, List.append_assoc,
        run_blanks hblanks]
      exact run_close (by simp) (.inr rfl) hinside.told
    | array hitems =>
      obtain ⟨s₂, hthrough, hclose⟩ := Sink.takes_append.mp hinside
      rw [List.cons_append, run_open (b := .array) (by simp) hopens hroom, List.append_assoc,
        Bracket.inside, List.singleton_append,
        run_itemsText hitems (.inr rfl) hopen hdepth (ends_of_head (by simp)) hthrough]
      exact run_close (by simp) (.inl rfl) hclose.told
  | .object members =>
    rw [events, List.cons_append] at htakes
    obtain ⟨s₁, hopens, hinside⟩ := Sink.takes_cons.mp htakes
    rw [depth, Nat.add_comm _ 1, ← Nat.add_assoc] at hdepth
    have hroom (hheard : skipped = none) : nesting.length < nestingLimit :=
      Nat.lt_of_lt_of_le (Nat.lt_add_right _ (Nat.lt_succ_self _)) (hdepth hheard)
    cases h with
    -- Between the braces there are only blanks, or members with commas between them.
    | emptyObject hblanks =>
      rw [List.cons_append, run_open (b := .object) (by simp) hopens hroom, List.append_assoc,
        run_blanks hblanks]
      exact run_close (by simp) (.inr rfl) hinside.told
    | object hmembers =>
      obtain ⟨s₂, hthrough, hclose⟩ := Sink.takes_append.mp hinside
      rw [List.cons_append, run_open (b := .object) (by simp) hopens hroom, List.append_assoc,
        Bracket.inside, List.singleton_append,
        run_membersText hmembers (.inl rfl) hopen hdepth (ends_of_head (by simp)) hthrough]
      exact run_close (by simp) (.inl rfl) hclose.told

/-- Inside an array the texts of items are read as these items. -/
theorem run_itemsText {nesting : List Bracket} {s t : σ} {rest text : List Char} {js : List Json}
    {e : Expecting} (h : ItemsText js text) (he : e = .value ∨ e = .firstItem)
    (hopen : ∀ n ∈ skipped, n ≤ nesting.length)
    (hdepth : skipped = none → nesting.length + 1 + depthOfItems js ≤ nestingLimit)
    (hrest : Ends rest) (htakes : k.Takes skipped s (itemEvents js) t) :
    run k ⟨.array :: nesting, skipped, .between e, s⟩ (text ++ rest) =
      run k ⟨.array :: nesting, skipped, .between .separator, t⟩ rest := by
  match js with
  | [] => nomatch h
  | j :: js =>
    rw [itemEvents] at htakes
    obtain ⟨u, hfirst, hthrough⟩ := Sink.takes_append.mp htakes
    rw [depthOfItems] at hdepth
    have hinside := open_inside .array hopen
    have hread {text rest : List Char} (htext : ValueText j text) (hrest : Ends rest) :
        run k ⟨.array :: nesting, skipped, .between .value, s⟩ (text ++ rest) =
          run k ⟨.array :: nesting, skipped, .between .separator, u⟩ rest := by
      -- One item nests no deeper than all of them.
      have hwithin (hheard : skipped = none) :
          (Bracket.array :: nesting).length + depth j ≤ nestingLimit :=
        Nat.le_trans (Nat.add_le_add_left (Nat.le_max_left _ _) _) (hdepth hheard)
      rw [run_valueText htext (fun n hn => Nat.le_of_lt (hinside n hn)) hwithin hrest hfirst,
        completed_inside hinside]
    cases h with
    | last htext =>
      obtain rfl : t = u := hthrough.eq_of_nil
      exact run_elementText he htext hrest hread
    | cons htext hlater =>
      -- Another item follows, and its events begin with one that the sink has room for.
      have hroom : (skipped.isSome || k.room u) = true := by
        cases hlater <;> exact hthrough.room (by simp [itemEvents, events_ne_nil])
      rw [List.append_assoc, List.cons_append,
        run_elementText he htext (ends_of_head (by simp)) hread, run_comma_array hroom]
      exact run_itemsText hlater (.inl rfl) hopen
        (fun hheard => Nat.le_trans (Nat.add_le_add_left (Nat.le_max_right _ _) _) (hdepth hheard))
        hrest hthrough

/-- Inside an object the texts of members are read as these members. -/
theorem run_membersText {nesting : List Bracket} {s t : σ} {rest text : List Char}
    {ms : List (String × Json)} {e : Expecting} (h : MembersText ms text)
    (he : e = .firstKey ∨ e = .key) (hopen : ∀ n ∈ skipped, n ≤ nesting.length)
    (hdepth : skipped = none → nesting.length + 1 + depthOfMembers ms ≤ nestingLimit)
    (hrest : Ends rest) (htakes : k.Takes skipped s (memberEvents ms) t) :
    run k ⟨.object :: nesting, skipped, .between e, s⟩ (text ++ rest) =
      run k ⟨.object :: nesting, skipped, .between .separator, t⟩ rest := by
  match ms with
  | [] => nomatch h
  | (name, j) :: ms =>
    rw [memberEvents, List.cons_append] at htakes
    obtain ⟨s₁, hkey, hbehind⟩ := Sink.takes_cons.mp htakes
    obtain ⟨u, hfirst, hthrough⟩ := Sink.takes_append.mp hbehind
    rw [depthOfMembers] at hdepth
    have hinside := open_inside .object hopen
    have hread {text rest : List Char} (htext : ValueText j text) (hrest : Ends rest) :
        run k ⟨.object :: nesting, skipped, .between .value, s₁⟩ (text ++ rest) =
          run k ⟨.object :: nesting, skipped, .between .separator, u⟩ rest := by
      have hwithin (hheard : skipped = none) :
          (Bracket.object :: nesting).length + depth j ≤ nestingLimit :=
        Nat.le_trans (Nat.add_le_add_left (Nat.le_max_left _ _) _) (hdepth hheard)
      rw [run_valueText htext (fun n hn => Nat.le_of_lt (hinside n hn)) hwithin hrest hfirst,
        completed_inside hinside]
    -- The first member is read by itself, and the others by recursion if there are any.
    refine run_firstMember h he hrest hkey.told hread ?_ fun hmore => ?_
    · rintro rfl
      exact hthrough.eq_of_nil.symm
    · exact run_membersText hmore (.inr rfl) hopen
        (fun hheard => Nat.le_trans (Nat.add_le_add_left (Nat.le_max_right _ _) _) (hdepth hheard))
        hrest hthrough
end

end Machine

/-! ## Texts made of texts -/

/-- What puts a comma in front of each text and a bracket behind them all, separates them. -/
theorem append_behind {α : Type} (write : α → List Char) (behind : List α → List Char)
    {closing : Char} (hnil : behind [] = [closing])
    (hcons : ∀ a as, behind (a :: as) = ',' :: (write a ++ behind as)) (a : α) (as : List α) :
    write a ++ behind as = separated ((a :: as).map write) ++ [closing] := by
  induction as generalizing a with
  | nil => rw [hnil, List.map_singleton, separated]
  | cons second as ih =>
    -- Induction on what follows the first text, which is any.
    have hseparated : separated ((a :: second :: as).map write) =
        write a ++ ',' :: separated ((second :: as).map write) := rfl
    rw [hcons, ih, hseparated, List.append_assoc, List.cons_append]

/-- The text of an array is made of the texts of its items. -/
theorem compact_array (items : List Json) :
    compact (.array items) = bracketed (items.map compact) := by
  cases items with
  | nil => rw [compact]; rfl
  | cons j js =>
    have hitems := append_behind compact compactItems (by rw [compactItems])
      (fun j js => by rw [compactItems, List.cons_append]) j js
    rw [compact, List.cons_append, hitems, bracketed, List.cons_append]

/-- The text of an object is made of the texts of its members. -/
theorem compact_object (members : List (String × Json)) :
    compact (.object members) = braced (members.map fun (name, j) => namedMember name (compact j)) := by
  cases members with
  | nil => rw [compact]; rfl
  | cons entry ms =>
    obtain ⟨name, j⟩ := entry
    have hmembers := append_behind (fun entry => namedMember entry.1 (compact entry.2))
      compactMembers (by rw [compactMembers])
      (fun entry ms => by rw [compactMembers, namedMember]; rfl) (name, j) ms
    have hfirst : compact (.object ((name, j) :: ms)) =
        '\x7b' :: (namedMember name (compact j) ++ compactMembers ms) := by
      rw [compact, namedMember]
      rfl
    rw [hfirst, hmembers, braced, List.cons_append]

/-- There need not be blanks around a value. -/
theorem elementText_of_valueText {j : Json} {text : List Char} (h : ValueText j text) :
    ElementText j text := by
  have haround : ElementText j ([] ++ (text ++ [])) := .around nofun h nofun
  rwa [List.append_nil] at haround

/-- Texts of items with commas between them are a text of the items. -/
theorem itemsText_separated {write : Json → List Char} {j : Json} {js : List Json}
    (h : ∀ item ∈ j :: js, ValueText item (write item)) :
    ItemsText (j :: js) (separated ((j :: js).map write)) := by
  induction js generalizing j with
  | nil => exact .last (elementText_of_valueText (h j List.mem_cons_self))
  | cons second js ih =>
    exact .cons (elementText_of_valueText (h j List.mem_cons_self))
      (ih fun item hitem => h item (List.mem_cons_of_mem j hitem))

/-- What is written for a member is one of its texts. -/
theorem memberText_namedMember {name : String} {j : Json} {text : List Char} (h : ValueText j text) :
    MemberText (name, j) (namedMember name text) := by
  have hnamed : MemberText (name, j)
      ([] ++ '"' :: (name.toList.flatMap escape ++ '"' :: ([] ++ ':' :: text))) :=
    .named nofun (spellsAll_escape name.toList) nofun (elementText_of_valueText h)
  rw [namedMember, quoted, List.cons_append, List.cons_append, List.append_assoc]
  exact hnamed

/-- Texts of members with commas between them are a text of the members. -/
theorem membersText_separated {write : String × Json → List Char} {entry : String × Json}
    {ms : List (String × Json)} (h : ∀ entry' ∈ entry :: ms, MemberText entry' (write entry')) :
    MembersText (entry :: ms) (separated ((entry :: ms).map write)) := by
  induction ms generalizing entry with
  | nil => exact .last (h entry List.mem_cons_self)
  | cons second ms ih =>
    exact .cons (h entry List.mem_cons_self)
      (ih fun entry' hentry => h entry' (List.mem_cons_of_mem entry hentry))

/-- Members that are written one after the other make an object. -/
theorem valueText_braced {write : String × Json → List Char} {ms : List (String × Json)}
    (h : ∀ entry ∈ ms, MemberText entry (write entry)) :
    ValueText (.object ms) (braced (ms.map write)) := by
  cases ms with
  | nil =>
    have hempty : ValueText (.object []) ('\x7b' :: ([] ++ ['\x7d'])) := .emptyObject nofun
    exact hempty
  | cons entry ms => exact .object (membersText_separated h)

mutual
/-- The text that is written for a value is one of its texts. -/
theorem valueText_compact {j : Json} (h : FloatFree j) : ValueText j (compact j) := by
  match j with
  | .null => rw [compact]; exact .null
  | .bool true => rw [compact]; exact .yes
  | .bool false => rw [compact]; exact .no
  | .number (.integer w) => rw [compact]; exact .integer w
  | .number (.float x) => exact absurd rfl (h.self x)
  | .string x => rw [compact]; exact .string (spellsAll_escape x.toList)
  | .array items =>
    rw [compact_array]
    cases items with
    | nil =>
      have hempty : ValueText (.array []) ('[' :: ([] ++ [']'])) := .emptyArray nofun
      exact hempty
    | cons j js => exact .array (itemsText_separated (valueText_compactItems h.2))
  | .object members =>
    rw [compact_object]
    exact valueText_braced (memberText_compactMembers h.2)

/-- The text that is written for an item is one of its texts. -/
theorem valueText_compactItems {js : List Json} (h : EveryItem IsNoFloat js) :
    ∀ item ∈ js, ValueText item (compact item) := by
  match js with
  | [] => exact nofun
  | j :: js =>
    exact List.forall_mem_cons.mpr ⟨valueText_compact h.1, valueText_compactItems h.2⟩

/-- The text that is written for a member is one of its texts. -/
theorem memberText_compactMembers {ms : List (String × Json)} (h : EveryMember IsNoFloat ms) :
    ∀ entry ∈ ms, MemberText entry (namedMember entry.1 (compact entry.2)) := by
  match ms with
  | [] => exact nofun
  | (name, j) :: ms =>
    exact List.forall_mem_cons.mpr
      ⟨memberText_namedMember (valueText_compact h.1), memberText_compactMembers h.2⟩
end

/-- So the text that was written is read as the value: the sink hears its events, and reading goes on
behind it. -/
theorem Machine.run_compact {nesting : List Bracket} {s t : σ} {rest : List Char} {j : Json}
    (hfloats : FloatFree j) (hdepth : nesting.length + depth j ≤ nestingLimit) (hrest : Ends rest)
    (hears : k.Hears s (events j) t) :
    run k ⟨nesting, none, .between .value, s⟩ (compact j ++ rest) =
      run k ⟨nesting, none, .between .separator, t⟩ rest := by
  rw [← completed_heard]
  exact run_valueText (valueText_compact hfloats) nofun (fun _ => hdepth) hrest (.heard hears)

end TableMarkup.Json
