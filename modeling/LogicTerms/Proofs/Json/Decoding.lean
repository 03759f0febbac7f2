/-
**Reading a value undoes writing it.**

What a reader of values makes of the JSON of a value is the value again, also if the decimals in it
have been replaced by those that are written.  This is said here for every type of value: numbers of
any size, variables, terms of any nesting, and errors.  A double that is not finite is written as
`null`, which is read as no double, and so no term that it occurs in is read.

Main definitions:

* `Json.Restores` — reading undoes writing.

Main results:

* `Json.Restores.read` — **then the text of the value is read as the value**;
* `Number.restores`, `Variable.restores`, `Term.restores`, `Error.restores` — the types of value;
* `Number.ofJson?_of_not_isFinite`, `Term.ofJson?_of_not_isFinite` — what is not finite is not read.
-/

import LogicTerms.Error.Json
import LogicTerms.Proofs.Binary64.Shortest
import LogicTerms.Proofs.Json.Nesting
import LogicTerms.Proofs.Term.Text
import LogicTerms.Term.Json

set_option relaxedAutoImplicit false
set_option autoImplicit false

namespace LogicTerms

/-! ### Lists -/

section Lists

variable {α β : Type} {f : β → Option α} {g : α → β}

/-- Reading every member undoes writing every member. -/
theorem mapM_map_eq_some {l : List α} (h : ∀ a ∈ l, f (g a) = some a) :
    (l.map g).mapM f = some l := by
  induction l with
  | nil => rfl
  | cons a l ih =>
      rw [List.map_cons, List.mapM_cons, h a List.mem_cons_self,
        ih fun b hb => h b (List.mem_cons_of_mem a hb)]
      rfl

/-- A list is not read if one of its members is not. -/
theorem mapM_eq_none {l : List β} {b : β} (hb : b ∈ l) (h : f b = none) : l.mapM f = none := by
  induction l with
  | nil => exact nomatch hb
  | cons c l ih =>
      rw [List.mapM_cons]
      obtain rfl | hb := List.mem_cons.1 hb
      · rw [h]
        rfl
      · cases f c with
        | none => rfl
        | some a =>
            rw [Option.bind_eq_bind, Option.bind_some, ih hb]
            rfl

end Lists

namespace Json

variable {α : Type} {decode : Json → Option α} {j : Json} {a : α}

/-! ### Values and their texts -/

/-- The JSON is written without leading zeros, and is read as the value, with the digits of its
decimals that are written. -/
structure Restores (decode : Json → Option α) (j : Json) (a : α) : Prop where
  /-- No decimal has leading zeros. -/
  plain : j.IsPlain
  /-- The value is read. -/
  eq_some : decode j.written = some a

/-- **The text of the value is read as the value**, if it may be nested as deep as it is. -/
theorem Restores.read (h : Restores decode j a) {depth : ℕ} (hdepth : j.depth ≤ depth) :
    (readWithin? depth j.text).bind decode = some a := by
  rw [readWithin?_text h.plain hdepth, Option.bind_some, h.eq_some]

/-- A text is rejected, however deep it may be nested, if what is written is not read. -/
theorem bind_readWithin?_eq_none (hj : j.IsPlain) (h : decode j.written = none) (depth : ℕ) :
    (readWithin? depth j.text).bind decode = none := by
  cases hread : readWithin? depth j.text with
  | none => rfl
  | some j' => rw [Option.bind_some, eq_written_of_readWithin? hj hread, h]

theorem written_tagged (name : String) (j : Json) :
    (tagged name j).written = tagged name j.written := by
  simp [tagged]

theorem IsPlain.tagged (h : j.IsPlain) (name : String) : (tagged name j).IsPlain :=
  .object fun m hm => by
    rw [List.mem_singleton.1 hm]
    exact h

theorem depth_tagged (name : String) (j : Json) : (tagged name j).depth = j.depth + 1 := by
  simp [tagged, Json.depth, membersDepth, memberDepth]

theorem untag?_tagged (name : String) (j : Json) : (tagged name j).untag? = some (name, j) := rfl

theorem member?_tagged (name : String) (j : Json) : (tagged name j).member? name = some j := by
  simp [tagged, member?]

/-! ### Pairs -/

section Pairs

variable {n m : String} {b c : Json}

theorem isPlain_items (hb : b.IsPlain) (hc : c.IsPlain) : (array [b, c]).IsPlain := by
  refine .array fun j hj => ?_
  obtain rfl | hj := List.mem_cons.1 hj
  · exact hb
  · rw [List.mem_singleton.1 hj]
    exact hc

theorem isPlain_members (hb : b.IsPlain) (hc : c.IsPlain) :
    (object [(n, b), (m, c)]).IsPlain := by
  refine .object fun j hj => ?_
  obtain rfl | hj := List.mem_cons.1 hj
  · exact hb
  · rw [List.mem_singleton.1 hj]
    exact hc

theorem member?_first (h : m ≠ n) (b c : Json) :
    (object [(n, b), (m, c)]).member? n = some b := by
  simp [member?, h]

theorem member?_second (h : n ≠ m) (b c : Json) :
    (object [(n, b), (m, c)]).member? m = some c := by
  simp [member?, h]

end Pairs

end Json

/-! ### Numbers -/

namespace Number

theorem limbs_lt {n d : ℕ} (h : d ∈ limbs n) : d < 2 ^ 32 := by
  induction n using Nat.strongRecOn with
  | ind n ih =>
      rw [limbs] at h
      split at h
      · exact absurd h List.not_mem_nil
      · obtain rfl | h := List.mem_cons.1 h
        · exact Nat.mod_lt n (by decide)
        · exact ih (n / 2 ^ 32) (by omega) h

theorem signOfJson?_toJson (i : ℤ) :
    signOfJson? (.integer (i < 0) i.sign.natAbs) = some i.sign := by
  obtain h | rfl | h := lt_trichotomy i 0
  · rw [Int.sign_eq_neg_one_of_neg h, decide_eq_true h]
    rfl
  · rfl
  · rw [Int.sign_eq_one_of_pos h, decide_eq_false (not_lt.2 h.le)]
    rfl

/-- Integers of any size are read as they were written. -/
theorem integerOfJson?_toJson (i : ℤ) : integerOfJson? (integerToJson i) = some i := by
  have hlimbs : ((limbs i.natAbs).map Json.ofNat).mapM (Json.below? (2 ^ 32)) =
      some (limbs i.natAbs) := by
    refine mapM_map_eq_some fun d hd => ?_
    rw [Json.below?, Json.ofNat, Json.natural?]
    exact if_pos (limbs_lt hd)
  simp only [integerOfJson?, integerToJson, Json.pair?, Json.items?, Option.bind_eq_bind,
    Option.bind_some, signOfJson?_toJson, hlimbs, ofLimbs_limbs, Int.sign_mul_natAbs]

/-- There are no decimals in integers. -/
theorem written_integerToJson (i : ℤ) : (integerToJson i).written = integerToJson i := by
  simp [integerToJson, Json.ofNat]

theorem isPlain_integerToJson (i : ℤ) : (integerToJson i).IsPlain := by
  refine Json.isPlain_items (.integer _ _) (.array fun j hj => ?_)
  obtain ⟨d, -, rfl⟩ := List.mem_map.1 hj
  exact .integer _ _

/-- Ratios are read as they were written. -/
theorem ratioOfJson?_toJson (q : ℚ) : ratioOfJson? (ratioToJson q).written = some q := by
  have hden : (q.den : ℤ) ≠ 0 := Int.natCast_ne_zero.2 q.den_nz
  simp only [ratioToJson, Json.written_array, List.map_cons, List.map_nil, written_integerToJson,
    ratioOfJson?, Json.pair?, Option.bind_eq_bind, Option.bind_some, integerOfJson?_toJson, if_neg hden,
    Rat.num_divInt_den]

theorem isPlain_ratioToJson (q : ℚ) : (ratioToJson q).IsPlain :=
  Json.isPlain_items (isPlain_integerToJson _) (isPlain_integerToJson _)

/-- The decimal of a double is written without leading zeros. -/
theorem isPlain_shortest (m : ℕ) : (Binary64.shortest m).IsPlain := by
  intro hzero
  by_cases hm : m = 0
  · subst hm
    exact le_refl _
  · -- zero is not in the interval of any other magnitude
    have hfits := Binary64.fits_shortest m
    have hlower : 0 < Binary64.lowerMidpoint m * (Binary64.shortest m).denominator := by
      have hunits := Binary64.units_strictMono (Nat.pos_of_ne_zero hm)
      exact Nat.mul_pos (by rw [Binary64.lowerMidpoint]; omega) (Decimal.denominator_pos _)
    rw [Binary64.Fits, Decimal.numerator, hzero, Nat.zero_mul, Nat.zero_mul, Nat.mul_zero,
      Binary64.RoundsTo] at hfits
    split at hfits <;> omega

/-- Finite doubles are read as they were written. -/
theorem floatOfJson?_toJson {x : Binary64} (h : x.isFinite = true) :
    floatOfJson? (floatToJson x).written = some x := by
  have hread : Binary64.ofDecimal x.negative ((Binary64.shortest x.magnitude).written Json.layout) =
      x :=
    (Binary64.ofDecimal_congr (Decimal.value_written _ _)).trans (Binary64.ofDecimal_shortest h)
  simp only [floatToJson, if_pos h, Json.written_decimal, floatOfJson?, hread, Option.bind_some]

/-- A double that is not finite is written as `null`, which is no double. -/
theorem floatToJson_of_not_isFinite {x : Binary64} (h : x.isFinite = false) :
    floatToJson x = .null := by
  rw [floatToJson, h]
  rfl

theorem isPlain_floatToJson (x : Binary64) : (floatToJson x).IsPlain := by
  rw [floatToJson]
  split
  · exact .decimal _ (isPlain_shortest _)
  · exact .null

theorem isPlain_toJson (n : Number) : n.toJson.IsPlain := by
  cases n with
  | int i => exact (isPlain_integerToJson i).tagged _
  | float x => exact (isPlain_floatToJson x).tagged _
  | ratio q => exact (isPlain_ratioToJson q).tagged _

/-- **Finite numbers are read as they were written.** -/
theorem restores {n : Number} (h : n.IsFinite) : Json.Restores ofJson? n.toJson n := by
  refine ⟨isPlain_toJson n, ?_⟩
  cases n with
  | int i =>
      rw [toJson, Json.written_tagged, written_integerToJson, ofJson?]
      simp only [Json.untag?_tagged, Option.bind_eq_bind, Option.bind_some, integerOfJson?_toJson,
        Option.map_some]
  | float x =>
      rw [toJson, Json.written_tagged, ofJson?]
      simp only [Json.untag?_tagged, Option.bind_eq_bind, Option.bind_some, floatOfJson?_toJson h,
        Option.map_some]
  | ratio q =>
      rw [toJson, Json.written_tagged, ofJson?]
      simp only [Json.untag?_tagged, Option.bind_eq_bind, Option.bind_some, ratioOfJson?_toJson,
        Option.map_some]

/-- A double that is not finite is not read. -/
theorem ofJson?_of_not_isFinite {n : Number} (h : ¬ n.IsFinite) :
    ofJson? n.toJson.written = none := by
  cases n with
  | int i => exact absurd trivial h
  | float x =>
      rw [toJson, floatToJson_of_not_isFinite (Bool.eq_false_iff.2 h), Json.written_tagged]
      rfl
  | ratio q => exact absurd trivial h

end Number

/-! ### Terms -/

theorem Variable.restores (v : Variable) : Json.Restores Variable.ofJson? v.toJson v := by
  refine ⟨Json.isPlain_members (.string _) (.integer _ _), ?_⟩
  have hid : (Json.ofNat v.id.toNat).below? (2 ^ 64) = some v.id.toNat := if_pos v.id.toNat_lt
  have hwritten : v.toJson.written = v.toJson := by
    simp [toJson, Json.ofNat]
  rw [hwritten, ofJson?, toJson]
  simp only [Json.member?_first (show "id" ≠ "name" by decide),
    Json.member?_second (show "name" ≠ "id" by decide), Json.string?, Option.bind_eq_bind,
    Option.bind_some, hid, UInt64.ofNat_toNat]

namespace Term

variable {t : Term}

theorem toJson_compound (f : String) (args : List Term) :
    (compound f args).toJson = .tagged "value" (.tagged "Compound"
      (.object [("functor", .string f), ("args", .array (args.map toJson))])) := by
  rw [toJson, toJsonArgs_eq_map]

theorem isPlain_toJson (t : Term) : t.toJson.IsPlain := by
  induction t using induct with
  | var v => exact (v.restores.plain.tagged _).tagged _
  | atom a => exact ((Json.IsPlain.string a).tagged _).tagged _
  | num n => exact (n.isPlain_toJson.tagged _).tagged _
  | compound f args ih =>
      rw [toJson_compound]
      have hargs : (Json.array (args.map toJson)).IsPlain := .array fun j hj => by
        obtain ⟨a, ha, rfl⟩ := List.mem_map.1 hj
        exact ih a ha
      exact ((Json.isPlain_members (.string f) hargs).tagged _).tagged _

/-- Arguments are nested less deep than their compound. -/
theorem depth_toJson_lt {f : String} {args : List Term} (ht : t ∈ args) :
    t.toJson.depth < (compound f args).toJson.depth := by
  have hle := Json.depth_le_itemsDepth (List.mem_map_of_mem (f := toJson) ht)
  rw [toJson_compound, Json.depth_tagged, Json.depth_tagged]
  simp only [Json.depth, Json.membersDepth, Json.memberDepth]
  omega

theorem depth_toJson_pos (t : Term) : 0 < t.toJson.depth := by
  cases t <;> (rw [toJson, Json.depth_tagged]; exact Nat.succ_pos _)

section Equations

variable (depth : ℕ)

theorem ofJsonWithin?_var (v : Variable) :
    ofJsonWithin? (depth + 1) (var v).toJson.written = some (var v) := by
  rw [toJson, Json.written_tagged, Json.written_tagged, ofJsonWithin?]
  simp only [Json.member?_tagged, Json.untag?_tagged, Option.bind_eq_bind, Option.bind_some,
    v.restores.eq_some, Option.map_some]

theorem ofJsonWithin?_atom (a : String) :
    ofJsonWithin? (depth + 1) (atom a).toJson.written = some (atom a) := by
  rw [toJson, Json.written_tagged, Json.written_tagged, ofJsonWithin?]
  simp only [Json.member?_tagged, Json.untag?_tagged, Option.bind_eq_bind, Option.bind_some,
    Json.written_string, Json.string?, Option.map_some]

theorem ofJsonWithin?_num (n : Number) :
    ofJsonWithin? (depth + 1) (num n).toJson.written =
      (Number.ofJson? n.toJson.written).map num := by
  rw [toJson, Json.written_tagged, Json.written_tagged, ofJsonWithin?]
  simp only [Json.member?_tagged, Json.untag?_tagged, Option.bind_eq_bind, Option.bind_some]

theorem ofJsonWithin?_compound (f : String) (args : List Term) :
    ofJsonWithin? (depth + 1) (compound f args).toJson.written =
      ((args.map fun a => a.toJson.written).mapM (ofJsonWithin? depth)).map (compound f) := by
  rw [toJson_compound, Json.written_tagged, Json.written_tagged, ofJsonWithin?]
  simp only [Json.member?_tagged, Json.untag?_tagged, Option.bind_eq_bind, Option.bind_some,
    Json.written_object, List.map_cons, List.map_nil, Json.writtenMember_mk, Json.written_string,
    Json.written_array, List.map_map, Function.comp_def,
    Json.member?_first (show "args" ≠ "functor" by decide),
    Json.member?_second (show "functor" ≠ "args" by decide), Json.string?, Json.items?]
  cases (args.map fun a => a.toJson.written).mapM (ofJsonWithin? depth) <;> rfl

end Equations

/-- A finite term is read as it was written, if terms may be nested as deep as its JSON is. -/
theorem ofJsonWithin?_toJson (h : t.IsFinite) {depth : ℕ} (hdepth : t.toJson.depth ≤ depth) :
    ofJsonWithin? depth t.toJson.written = some t := by
  obtain ⟨depth, rfl⟩ : ∃ k, depth = k + 1 :=
    ⟨depth - 1, by have := t.depth_toJson_pos; omega⟩
  induction t using induct generalizing depth with
  | var v => exact ofJsonWithin?_var depth v
  | atom a => exact ofJsonWithin?_atom depth a
  | num n => rw [ofJsonWithin?_num, (Number.restores h).eq_some, Option.map_some]
  | compound f args ih =>
      rw [IsFinite, isFiniteArgs_iff] at h
      rw [ofJsonWithin?_compound]
      have hargs : (args.map fun a => a.toJson.written).mapM (ofJsonWithin? depth) = some args := by
        refine mapM_map_eq_some fun a ha => ?_
        have hlt := depth_toJson_lt (f := f) ha
        have hpos := a.depth_toJson_pos
        obtain ⟨depth, rfl⟩ : ∃ k, depth = k + 1 := ⟨depth - 1, by omega⟩
        exact ih a ha (h a ha) depth (by omega)
      rw [hargs, Option.map_some]

/-- **Finite terms are read as they were written.** -/
theorem restores (h : t.IsFinite) : Json.Restores ofJson? t.toJson t := by
  refine ⟨t.isPlain_toJson, ?_⟩
  rw [ofJson?, t.isPlain_toJson.depth_written]
  exact ofJsonWithin?_toJson h le_rfl

/-- **A term that is not finite is not read**, however deep terms may be nested. -/
theorem ofJsonWithin?_of_not_isFinite (h : ¬ t.IsFinite) (depth : ℕ) :
    ofJsonWithin? depth t.toJson.written = none := by
  induction t using induct generalizing depth with
  | var v => exact absurd trivial h
  | atom a => exact absurd trivial h
  | num n =>
      cases depth with
      | zero => rfl
      | succ depth => rw [ofJsonWithin?_num, Number.ofJson?_of_not_isFinite h, Option.map_none]
  | compound f args ih =>
      cases depth with
      | zero => rfl
      | succ depth =>
          obtain ⟨a, ha, hfinite⟩ : ∃ a ∈ args, ¬ a.IsFinite := by
            rw [IsFinite, isFiniteArgs_iff] at h
            simpa using h
          have hmem := List.mem_map_of_mem (f := fun a : Term => a.toJson.written) ha
          rw [ofJsonWithin?_compound, mapM_eq_none hmem (ih a ha hfinite depth), Option.map_none]

theorem ofJson?_of_not_isFinite (h : ¬ t.IsFinite) : ofJson? t.toJson.written = none :=
  ofJsonWithin?_of_not_isFinite h _

end Term

/-! ### Errors -/

theorem Error.textMember?_tagged (name text : String) :
    Error.textMember? name (.tagged name (.string text)) = some text := by
  rw [textMember?, Json.member?_tagged]
  rfl

theorem LiteralError.restores (e : LiteralError) : Json.Restores ofJson? e.toJson e := by
  constructor
  · cases e <;> exact ((Json.IsPlain.string _).tagged _).tagged _
  · cases e <;>
    · rw [toJson, Json.written_tagged, Json.written_tagged, Json.written_string, ofJson?]
      simp only [Json.untag?_tagged, Option.bind_eq_bind, Option.bind_some,
        Error.textMember?_tagged, Option.map_some]

theorem RunError.restores (e : RunError) : Json.Restores ofJson? e.toJson e := by
  constructor
  · cases e <;> exact ((Json.IsPlain.string _).tagged _).tagged _
  · cases e <;>
    · rw [toJson, Json.written_tagged, Json.written_tagged, Json.written_string, ofJson?]
      simp only [Json.untag?_tagged, Option.bind_eq_bind, Option.bind_some,
        Error.textMember?_tagged, Option.map_some]

/-- **Errors are read as they were written.** -/
theorem Error.restores (e : Error) : Json.Restores ofJson? e.toJson e := by
  cases e with
  | literal e =>
      refine ⟨(e.restores.plain.tagged _).tagged _, ?_⟩
      rw [toJson, Json.written_tagged, Json.written_tagged, ofJson?]
      simp only [Json.member?_tagged, Json.untag?_tagged, Option.bind_eq_bind, Option.bind_some,
        e.restores.eq_some, Option.map_some]
  | run e =>
      refine ⟨(e.restores.plain.tagged _).tagged _, ?_⟩
      rw [toJson, Json.written_tagged, Json.written_tagged, ofJson?]
      simp only [Json.member?_tagged, Json.untag?_tagged, Option.bind_eq_bind, Option.bind_some,
        e.restores.eq_some, Option.map_some]

end LogicTerms
