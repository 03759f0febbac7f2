/-
**JSON is read as it was written.**

A written value is read up to its end, whatever follows that could not be part of a number.  What is
read is the value itself, but that its decimals have the digits that were written.  The reader has
steps enough: it nests at most two of them for each character of the text, one for the value that
starts there and one for the list that the value is in.

Main definitions:

* `Json.written` — a value with the digits that are written in its decimals;
* `Json.IsPlain` — no decimal in the value is written with leading zeros;
* `Json.IsSeparated` — how parts between brackets are written and read;
* `Json.Reads` — a value is read as it was written.

Main results:

* `Json.IsSeparated.parts_write` — what stands between brackets is read part by part;
* `Json.IsPlain.reads` — **every value is read as it was written**;
* `Json.readWithin?_text` — its text is read, nested as deep as it is.
-/

import LogicTerms.Proofs.Json.Scalar

set_option relaxedAutoImplicit false
set_option autoImplicit false

namespace LogicTerms.Json

open Literal

variable {j : Json} {cs ds rest : List Char}

/-! ### What is read -/

mutual

/-- The value with the digits that are written in its decimals. -/
def written : Json → Json
  | decimal negative d => decimal negative (d.written layout)
  | array items => array (writtenItems items)
  | object members => object (writtenMembers members)
  | j => j

/-- The items with the digits that are written. -/
def writtenItems : List Json → List Json
  | [] => []
  | j :: js => written j :: writtenItems js

/-- The members with the digits that are written. -/
def writtenMembers : List (String × Json) → List (String × Json)
  | [] => []
  | m :: ms => writtenMember m :: writtenMembers ms

/-- The member with the digits that are written. -/
def writtenMember : String × Json → String × Json
  | (name, j) => (name, written j)

end

theorem writtenItems_eq_map (js : List Json) : writtenItems js = js.map written := by
  induction js with
  | nil => rfl
  | cons j js ih => rw [writtenItems, List.map_cons, ih]

theorem writtenMembers_eq_map (ms : List (String × Json)) :
    writtenMembers ms = ms.map writtenMember := by
  induction ms with
  | nil => rfl
  | cons m ms ih => rw [writtenMembers, List.map_cons, ih]

@[simp] theorem written_null : null.written = null := rfl

@[simp] theorem written_integer (negative : Bool) (n : ℕ) :
    (integer negative n).written = integer negative n := rfl

@[simp] theorem written_decimal (negative : Bool) (d : Decimal) :
    (decimal negative d).written = decimal negative (d.written layout) := rfl

@[simp] theorem written_string (s : String) : (string s).written = string s := rfl

@[simp] theorem written_array (items : List Json) :
    (array items).written = array (items.map written) :=
  congrArg array (writtenItems_eq_map items)

@[simp] theorem written_object (members : List (String × Json)) :
    (object members).written = object (members.map writtenMember) :=
  congrArg object (writtenMembers_eq_map members)

@[simp] theorem writtenMember_mk (name : String) (j : Json) :
    writtenMember (name, j) = (name, j.written) := rfl

/-- No decimal in the value is written with leading zeros. -/
inductive IsPlain : Json → Prop
  | null : IsPlain null
  | bool (b : Bool) : IsPlain (bool b)
  | integer (negative : Bool) (n : ℕ) : IsPlain (integer negative n)
  | decimal (negative : Bool) {d : Decimal} : d.IsPlain → IsPlain (decimal negative d)
  | string (s : String) : IsPlain (string s)
  | array {items : List Json} : (∀ j ∈ items, IsPlain j) → IsPlain (array items)
  | object {members : List (String × Json)} : (∀ m ∈ members, IsPlain m.2) →
      IsPlain (object members)

/-- The value is read as it was written, up to what a number cannot go on with. -/
def Reads (j : Json) : Prop :=
  ∀ steps depth rest, 2 * j.write.length ≤ steps → j.depth ≤ depth → EndsNumber rest →
    readValue steps depth (j.write ++ rest) = some (j.written, rest)

/-! ### Scalars -/

theorem skipBlanks_cons {c : Char} (h : isBlank c = false) (cs : List Char) :
    skipBlanks (c :: cs) = c :: cs := by
  rw [skipBlanks, List.dropWhile_cons_of_neg (by simp [h])]

/-- A digit or a minus sign. -/
def StartsNumber (c : Char) : Prop := c = '-' ∨ isDigit 10 c = true

theorem StartsNumber.ne {c mark : Char} (h : StartsNumber c) (hsign : mark ≠ '-')
    (hdigit : isDigit 10 mark = false) : c ≠ mark := by
  rintro rfl
  obtain h | h := h
  · exact hsign h
  · rw [hdigit] at h
    exact nomatch h

theorem StartsNumber.isBlank {c : Char} (h : StartsNumber c) : isBlank c = false := by
  have hspace : c ≠ ' ' := h.ne (by decide) (by decide)
  have htab : c ≠ '\t' := h.ne (by decide) (by decide)
  have hline : c ≠ '\n' := h.ne (by decide) (by decide)
  have hreturn : c ≠ '\r' := h.ne (by decide) (by decide)
  simp [Json.isBlank, hspace, htab, hline, hreturn]

/-- What starts with a digit or a minus sign is read as a number. -/
theorem readValue_number {c : Char} (h : StartsNumber c) (steps depth : ℕ) (cs : List Char) :
    readValue (steps + 1) depth (c :: cs) = readNumber (c :: cs) := by
  have hscalar : readScalar (c :: cs) = readNumber (c :: cs) := by
    unfold readScalar
    split
    · rename_i he
      exact absurd (List.cons.inj he).1 (h.ne (by decide) (by decide))
    · rename_i he
      exact absurd (List.cons.inj he).1 (h.ne (by decide) (by decide))
    · rename_i he
      exact absurd (List.cons.inj he).1 (h.ne (by decide) (by decide))
    · rfl
  rw [readValue, skipBlanks_cons h.isBlank]
  split
  · rename_i he
    exact absurd (List.cons.inj he).1 (h.ne (by decide) (by decide))
  · rename_i he
    exact absurd (List.cons.inj he).1 (h.ne (by decide) (by decide))
  · rename_i he
    exact absurd (List.cons.inj he).1 (h.ne (by decide) (by decide))
  · exact hscalar

/-- A number behind its sign starts with a digit or a minus sign. -/
theorem exists_writeSign_cons (negative : Bool) (h : StartsWithDigit 10 cs) :
    ∃ c ds, writeSign negative ++ cs = c :: ds ∧ StartsNumber c := by
  cases negative with
  | true => exact ⟨'-', cs, rfl, .inl rfl⟩
  | false =>
      obtain ⟨d, ds, rfl⟩ := h
      exact ⟨d.char, ds, rfl, .inr ((isDigit_iff (by decide)).2 ⟨d, rfl⟩)⟩

theorem startsWithDigit_decimalDigits (n : ℕ) : StartsWithDigit 10 (decimalDigits n) := by
  obtain ⟨k, htext, -⟩ := Decimal.exists_numeral n
  exact htext ▸ startsWithDigit_text k

theorem startsWithDigit_write (d : Decimal) : StartsWithDigit 10 (d.write layout) := by
  obtain ⟨l, -, -, htext⟩ := d.exists_write layout
  rw [← htext, DecimalLiteral.text, Mantissa.text, List.append_assoc]
  exact (startsWithDigit_text l.mantissa.whole).append _

/-- What is written starts with a character that is neither blank nor a closing bracket. -/
theorem exists_write_cons (j : Json) :
    ∃ c cs, j.write = c :: cs ∧ isBlank c = false ∧ c ≠ ']' := by
  have hnumber : ∀ {cs}, (∃ c ds, cs = c :: ds ∧ StartsNumber c) →
      ∃ c ds, cs = c :: ds ∧ isBlank c = false ∧ c ≠ ']' := by
    rintro cs ⟨c, ds, rfl, hc⟩
    exact ⟨c, ds, rfl, hc.isBlank, hc.ne (by decide) (by decide)⟩
  cases j with
  | null => exact ⟨_, _, rfl, rfl, by decide⟩
  | bool b => cases b <;> exact ⟨_, _, rfl, rfl, by decide⟩
  | integer negative n =>
      exact hnumber (exists_writeSign_cons negative (startsWithDigit_decimalDigits n))
  | decimal negative d => exact hnumber (exists_writeSign_cons negative (startsWithDigit_write d))
  | string s => exact ⟨_, _, rfl, rfl, by decide⟩
  | array items => cases items <;> exact ⟨_, _, rfl, rfl, by decide⟩
  | object members => cases members <;> exact ⟨_, _, rfl, rfl, by decide⟩

theorem length_write_pos (j : Json) : 0 < j.write.length := by
  obtain ⟨c, cs, hcs, -⟩ := exists_write_cons j
  rw [hcs]
  exact Nat.succ_pos _

/-- A value is read as it was written if it is within one step and more. -/
theorem reads_of_succ (h : ∀ steps depth rest, 2 * j.write.length ≤ steps + 1 → j.depth ≤ depth →
    EndsNumber rest → readValue (steps + 1) depth (j.write ++ rest) = some (j.written, rest)) :
    j.Reads := by
  intro steps depth rest hsteps
  have hpos := length_write_pos j
  obtain ⟨k, rfl⟩ : ∃ k, steps = k + 1 := ⟨steps - 1, by omega⟩
  exact h k depth rest hsteps

theorem reads_integer (negative : Bool) (n : ℕ) : Reads (integer negative n) := by
  refine reads_of_succ fun steps depth rest _ _ hrest => ?_
  obtain ⟨c, ds, hcs, hc⟩ :=
    exists_writeSign_cons negative ((startsWithDigit_decimalDigits n).append rest)
  rw [write, List.append_assoc, hcs, readValue_number hc, ← hcs, readNumber_integer negative n hrest]
  rfl

theorem reads_decimal (negative : Bool) {d : Decimal} (hd : d.IsPlain) :
    Reads (decimal negative d) := by
  refine reads_of_succ fun steps depth rest _ _ hrest => ?_
  obtain ⟨c, ds, hcs, hc⟩ :=
    exists_writeSign_cons negative ((startsWithDigit_write d).append rest)
  rw [write, List.append_assoc, hcs, readValue_number hc, ← hcs,
    readNumber_decimal negative hd layout hrest]
  rfl

theorem reads_string (s : String) : Reads (string s) := by
  refine reads_of_succ fun steps depth rest _ _ _ => ?_
  rw [write, writeString, List.cons_append, List.append_assoc, List.singleton_append, readValue,
    skipBlanks_cons rfl]
  simp only [readStringBody_flatMap, Option.map_some, String.ofList_toList]
  rfl

/-! ### Brackets -/

section Brackets

variable {α : Type} {close c : Char} {depth : ℕ}
  {first : ℕ → List Char → Option (α × List Char)}
  {parts : ℕ → List Char → Option (List α × List Char)}

/-- What does not start with the closing bracket is read as parts. -/
theorem readBracketed_parts (hblank : isBlank c = false) (hc : c ≠ close) (cs : List Char) :
    readBracketed close parts (depth + 1) (c :: cs) = parts depth (c :: cs) := by
  rw [readBracketed, skipBlanks_cons hblank]
  exact if_neg hc

/-- The last part is the one with the closing bracket behind it. -/
theorem readParts_close {a : α} (hclose : isBlank close = false)
    (hfirst : first depth cs = some (a, close :: rest)) :
    readParts close first parts depth cs = some ([a], rest) := by
  rw [readParts, hfirst]
  simp only [skipBlanks_cons hclose, if_true]

/-- Behind a comma there are more parts. -/
theorem readParts_comma {a : α} {as : List α} (hclose : ',' ≠ close)
    (hfirst : first depth cs = some (a, ',' :: ds)) (hmore : parts depth ds = some (as, rest)) :
    readParts close first parts depth cs = some (a :: as, rest) := by
  rw [readParts, hfirst]
  simp only [skipBlanks_cons (show isBlank ',' = false from rfl), if_neg hclose, if_true, hmore,
    Option.map_some]

end Brackets

section Separated

variable {α : Type} {close : Char} {text : α → List Char} {behind : List α → List Char}
  {first : ℕ → ℕ → List Char → Option (α × List Char)}
  {parts : ℕ → ℕ → List Char → Option (List α × List Char)}

/-- How parts are written behind the first one, with commas between them and the closing bracket at
the end, and how they are read, one with each step. -/
structure IsSeparated (close : Char) (text : α → List Char) (behind : List α → List Char)
    (first : ℕ → ℕ → List Char → Option (α × List Char))
    (parts : ℕ → ℕ → List Char → Option (List α × List Char)) : Prop where
  /-- Behind the last part is the closing bracket. -/
  behind_nil : behind [] = [close]
  /-- Behind any other part are a comma and the next part. -/
  behind_cons : ∀ a as, behind (a :: as) = ',' :: (text a ++ behind as)
  /-- Parts are read one by one. -/
  parts_succ : ∀ steps depth cs,
    parts (steps + 1) depth cs = readParts close (first steps) (parts steps) depth cs
  /-- No part is passed over, or taken for the closing bracket. -/
  text_cons : ∀ a, ∃ c cs, text a = c :: cs ∧ isBlank c = false ∧ c ≠ close
  /-- The closing bracket is not passed over. -/
  isBlank_close : isBlank close = false
  /-- No comma is taken for it. -/
  comma_ne_close : ',' ≠ close
  /-- It ends a number in front of it. -/
  endsNumber_close : ∀ rest, EndsNumber (close :: rest)

theorem IsSeparated.endsNumber (h : IsSeparated close text behind first parts) (as : List α)
    (rest : List Char) : EndsNumber (behind as ++ rest) := by
  cases as with
  | nil =>
      rw [h.behind_nil]
      exact h.endsNumber_close rest
  | cons a as =>
      rw [h.behind_cons]
      rintro c ⟨⟩
      decide

/-- **Parts that are read as they were written are read** up to the closing bracket. -/
theorem IsSeparated.parts_write (h : IsSeparated close text behind first parts) {read : α → α}
    {depth : ℕ} {a : α} {as : List α}
    (hread : ∀ b ∈ a :: as, ∀ steps rest, 2 * (text b).length ≤ steps → EndsNumber rest →
      first steps depth (text b ++ rest) = some (read b, rest)) {steps : ℕ}
    (hsteps : 2 * (text a ++ behind as).length < steps) (rest : List Char) :
    parts steps depth (text a ++ (behind as ++ rest)) = some ((a :: as).map read, rest) := by
  induction as generalizing a steps with
  | nil =>
      obtain ⟨steps, rfl⟩ : ∃ k, steps = k + 1 := ⟨steps - 1, by omega⟩
      rw [List.length_append] at hsteps
      have hfirst := hread a List.mem_cons_self steps _ (by omega) (h.endsNumber [] rest)
      rw [h.behind_nil] at hfirst ⊢
      rw [h.parts_succ]
      exact readParts_close h.isBlank_close hfirst
  | cons b as ih =>
      obtain ⟨steps, rfl⟩ : ∃ k, steps = k + 1 := ⟨steps - 1, by omega⟩
      rw [List.length_append] at hsteps
      have hfirst := hread a List.mem_cons_self steps _ (by omega) (h.endsNumber (b :: as) rest)
      rw [h.behind_cons, List.length_cons] at hsteps
      have hmore : parts steps depth (text b ++ (behind as ++ rest)) =
          some ((b :: as).map read, rest) :=
        ih (fun k hk => hread k (List.mem_cons_of_mem _ hk)) (by omega)
      rw [h.behind_cons, List.cons_append, List.append_assoc] at hfirst ⊢
      rw [h.parts_succ]
      exact readParts_comma h.comma_ne_close hfirst hmore

/-- So is what stands between brackets. -/
theorem IsSeparated.bracketed_write (h : IsSeparated close text behind first parts) {read : α → α}
    {depth : ℕ} {a : α} {as : List α}
    (hread : ∀ b ∈ a :: as, ∀ steps rest, 2 * (text b).length ≤ steps → EndsNumber rest →
      first steps depth (text b ++ rest) = some (read b, rest)) {steps : ℕ}
    (hsteps : 2 * (text a ++ behind as).length < steps) (rest : List Char) :
    readBracketed close (parts steps) (depth + 1) (text a ++ (behind as ++ rest)) =
      some ((a :: as).map read, rest) := by
  have hparts := h.parts_write hread hsteps rest
  obtain ⟨c, cs, hcs, hblank, hclose⟩ := h.text_cons a
  rw [hcs, List.cons_append] at hparts ⊢
  rw [readBracketed_parts hblank hclose, hparts]

end Separated

/-! ### Arrays -/

theorem isSeparated_items : IsSeparated ']' write writeItems readValue readItems where
  behind_nil := rfl
  behind_cons _ _ := rfl
  parts_succ _ _ _ := rfl
  text_cons := exists_write_cons
  isBlank_close := rfl
  comma_ne_close := by decide
  endsNumber_close _ := by
    rintro c ⟨⟩
    decide

theorem depth_le_itemsDepth {js : List Json} (h : j ∈ js) : j.depth ≤ itemsDepth js := by
  induction js with
  | nil => exact nomatch h
  | cons i js ih =>
      rw [itemsDepth]
      obtain rfl | h := List.mem_cons.1 h
      · exact Nat.le_max_left _ _
      · exact (ih h).trans (Nat.le_max_right _ _)

theorem reads_array {items : List Json} (h : ∀ j ∈ items, Reads j) : Reads (array items) := by
  refine reads_of_succ fun steps depth rest hsteps hdepth _ => ?_
  rw [Json.depth] at hdepth
  obtain ⟨depth, rfl⟩ : ∃ k, depth = k + 1 := ⟨depth - 1, by omega⟩
  rw [written_array]
  cases items with
  | nil =>
      rw [write, List.cons_append, readValue, skipBlanks_cons rfl]
      rfl
  | cons j js =>
      rw [write, List.length_cons] at hsteps
      have hitems : readBracketed ']' (readItems steps) (depth + 1)
          (j.write ++ (writeItems js ++ rest)) = some ((j :: js).map written, rest) := by
        refine isSeparated_items.bracketed_write (fun i hi steps rest hsteps hrest => ?_) (by omega)
          rest
        exact h i hi steps depth rest hsteps
          ((depth_le_itemsDepth hi).trans (Nat.le_of_succ_le_succ hdepth)) hrest
      rw [write, List.cons_append, List.append_assoc, readValue, skipBlanks_cons rfl]
      simp only [hitems, Option.map_some]

/-! ### Objects -/

theorem depth_le_membersDepth {m : String × Json} {ms : List (String × Json)} (h : m ∈ ms) :
    m.2.depth ≤ membersDepth ms := by
  induction ms with
  | nil => cases h
  | cons k ms ih =>
      rw [membersDepth, memberDepth]
      obtain rfl | h := List.mem_cons.1 h
      · exact Nat.le_max_left _ _
      · exact (ih h).trans (Nat.le_max_right _ _)

/-- A member is its name, a colon and its value. -/
theorem writeMember_eq (m : String × Json) :
    writeMember m = '"' :: (m.1.toList.flatMap writeChar ++ '"' :: ':' :: m.2.write) := by
  rw [writeMember, writeString, List.cons_append, List.append_assoc]
  rfl

theorem isSeparated_members :
    IsSeparated '\x7d' writeMember writeMembers readMember readMembers where
  behind_nil := rfl
  behind_cons _ _ := rfl
  parts_succ _ _ _ := rfl
  text_cons m := ⟨_, _, writeMember_eq m, rfl, by decide⟩
  isBlank_close := rfl
  comma_ne_close := by decide
  endsNumber_close _ := by
    rintro c ⟨⟩
    decide

theorem readMember_write {m : String × Json} (h : m.2.Reads) {steps depth : ℕ}
    (hsteps : 2 * (writeMember m).length ≤ steps) (hdepth : m.2.depth ≤ depth)
    (hrest : EndsNumber rest) :
    readMember steps depth (writeMember m ++ rest) = some (writtenMember m, rest) := by
  rw [writeMember_eq] at hsteps ⊢
  simp only [List.length_cons, List.length_append] at hsteps
  obtain ⟨steps, rfl⟩ : ∃ k, steps = k + 1 := ⟨steps - 1, by omega⟩
  rw [List.cons_append, List.append_assoc, List.cons_append, List.cons_append, readMember,
    skipBlanks_cons rfl]
  simp only [readStringBody_flatMap, skipBlanks_cons (show isBlank ':' = false from rfl),
    h steps depth rest (by omega) hdepth hrest, Option.map_some, String.ofList_toList]
  rw [writtenMember]

theorem reads_object {members : List (String × Json)} (h : ∀ m ∈ members, m.2.Reads) :
    Reads (object members) := by
  refine reads_of_succ fun steps depth rest hsteps hdepth _ => ?_
  rw [Json.depth] at hdepth
  obtain ⟨depth, rfl⟩ : ∃ k, depth = k + 1 := ⟨depth - 1, by omega⟩
  rw [written_object]
  cases members with
  | nil =>
      rw [write, List.cons_append, readValue, skipBlanks_cons rfl]
      rfl
  | cons m ms =>
      rw [write, List.length_cons] at hsteps
      have hmembers : readBracketed '\x7d' (readMembers steps) (depth + 1)
          (writeMember m ++ (writeMembers ms ++ rest)) =
            some ((m :: ms).map writtenMember, rest) := by
        refine isSeparated_members.bracketed_write (fun k hk steps rest hsteps hrest => ?_)
          (by omega) rest
        exact readMember_write (h k hk) hsteps
          ((depth_le_membersDepth hk).trans (Nat.le_of_succ_le_succ hdepth)) hrest
      rw [write, List.cons_append, List.append_assoc, readValue, skipBlanks_cons rfl]
      simp only [hmembers, Option.map_some]

/-! ### Values -/

/-- **Every value is read as it was written.** -/
theorem IsPlain.reads (h : j.IsPlain) : j.Reads := by
  induction h with
  | null => exact reads_of_succ fun _ _ _ _ _ _ => by rw [readValue]; rfl
  | bool b =>
      refine reads_of_succ fun _ _ _ _ _ _ => ?_
      rw [readValue]
      cases b <;> rfl
  | integer negative n => exact reads_integer negative n
  | decimal negative hd => exact reads_decimal negative hd
  | string s => exact reads_string s
  | array _ ih => exact reads_array ih
  | object _ ih => exact reads_object ih

theorem itemsDepth_map_written {js : List Json} (h : ∀ j ∈ js, j.written.depth = j.depth) :
    itemsDepth (js.map written) = itemsDepth js := by
  induction js with
  | nil => rfl
  | cons j js ih =>
      rw [List.map_cons, itemsDepth, itemsDepth, h j List.mem_cons_self,
        ih fun k hk => h k (List.mem_cons_of_mem _ hk)]

theorem membersDepth_map_written {ms : List (String × Json)}
    (h : ∀ m ∈ ms, m.2.written.depth = m.2.depth) :
    membersDepth (ms.map writtenMember) = membersDepth ms := by
  induction ms with
  | nil => rfl
  | cons m ms ih =>
      have hm := h m List.mem_cons_self
      rw [List.map_cons, membersDepth, membersDepth, ih fun k hk => h k (List.mem_cons_of_mem _ hk),
        writtenMember, memberDepth, memberDepth, hm]

/-- What is read is nested as deep as what was written. -/
theorem IsPlain.depth_written (h : j.IsPlain) : j.written.depth = j.depth := by
  induction h with
  | array _ ih => rw [written_array, Json.depth, Json.depth, itemsDepth_map_written ih]
  | object _ ih => rw [written_object, Json.depth, Json.depth, membersDepth_map_written ih]
  | _ => rfl

/-- **The text of a value is read as it was written**, if it may be nested as deep as it is. -/
theorem readWithin?_text (h : j.IsPlain) {depth : ℕ} (hdepth : j.depth ≤ depth) :
    readWithin? depth j.text = some j.written := by
  have hread := h.reads (2 * j.write.length + 1) depth [] (Nat.le_succ _) hdepth endsNumber_nil
  rw [List.append_nil] at hread
  rw [readWithin?, text, String.toList_ofList]
  simp only [hread]
  rfl

end LogicTerms.Json
