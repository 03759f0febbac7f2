/-
**Bindings, and what reading a text gives back.**

The values of bindings are written in any order, the named variables in that of their names, and
both are read in the order in which they are written; so bindings are read with their entries in
another order, which makes no difference to what they bind and name.  An id is the name of a member,
and is read from it as a number.

With this, the text of every term, number, error and bindings is read as what it was written for, if
all doubles are finite; and if one in a term is not, the text of the term is rejected.

Main results:

* `Dictionary.Listing.find?_ofList` — the order of entries does not matter;
* `Dictionary.same_of_find?_eq` — dictionaries with the same values are the same;
* `Bindings.restores` — bindings are read as they were written, with their values as listed;
* `Json.read_text` — **reading a text undoes writing it**.
-/

import LogicTerms.Bindings.Json
import LogicTerms.Proofs.Json.Decoding
import Mathlib.Data.List.Nodup

set_option relaxedAutoImplicit false
set_option autoImplicit false

namespace LogicTerms

/-! ### The order of entries -/

namespace Dictionary

variable {κ α : Type} [DecidableEq κ] {d e : Dictionary κ α}

/-- What entries add to a dictionary, if their keys are distinct. -/
theorem find?_foldl_insert_iff {l : List (κ × α)} (hl : (l.map Prod.fst).Nodup) {k : κ} {a : α} :
    (l.foldl (fun d e => d.insert e.1 e.2) d).find? k = some a ↔
      (k, a) ∈ l ∨ k ∉ l.map Prod.fst ∧ d.find? k = some a := by
  induction l generalizing d with
  | nil => simp
  | cons e l ih =>
      obtain ⟨i, b⟩ := e
      obtain ⟨hi, hl⟩ := List.nodup_cons.1 hl
      rw [List.foldl_cons, ih hl]
      by_cases hk : k = i
      · subst hk
        have hmem : (k, a) ∉ l := fun h => hi (List.mem_map.2 ⟨_, h, rfl⟩)
        simp [hmem, hi, eq_comm]
      · rw [find?_insert_of_ne _ _ hk]
        simp [hk]

theorem find?_ofList_iff {l : List (κ × α)} (hl : (l.map Prod.fst).Nodup) {k : κ} {a : α} :
    (ofList l).find? k = some a ↔ (k, a) ∈ l := by
  rw [ofList, find?_foldl_insert_iff hl]
  simp

/-- **The order of entries does not matter**: from a listing in any order, the same values are
found. -/
theorem Listing.find?_ofList (l : d.Listing) (k : κ) : (ofList l.entries).find? k = d.find? k := by
  have hnodup : (l.entries.map Prod.fst).Nodup := (l.perm.map Prod.fst).nodup_iff.2 d.distinct
  ext a
  rw [find?_ofList_iff hnodup, l.perm.mem_iff, mem_entries_iff]

/-- **Dictionaries with the same values are the same**, if every value equals itself. -/
theorem same_of_find?_eq {equal : α → α → Bool} (h : ∀ k, d.find? k = e.find? k)
    (hequal : ∀ k a, d.find? k = some a → equal a a = true) : d.same equal e = true := by
  have hentries : d.entries.Perm e.entries := by
    refine (List.perm_ext_iff_of_nodup (List.Nodup.of_map _ d.distinct)
      (List.Nodup.of_map _ e.distinct)).2 fun p => ?_
    rw [mem_entries_iff, mem_entries_iff, h]
  rw [same, Bool.and_eq_true, beq_iff_eq, List.all_eq_true]
  refine ⟨hentries.length_eq, fun p hp => ?_⟩
  have hp : d.find? p.1 = some p.2 := (d.mem_entries_iff p.1 p.2).1 hp
  rw [← h, hp, Option.any_some, hequal p.1 p.2 hp]

end Dictionary

/-! ### Bindings -/

namespace Bindings

variable {env : Bindings} {values : env.values.Listing}

/-- The bindings with their entries in the order in which they are written. -/
def relisted (env : Bindings) (values : env.values.Listing) : Bindings where
  values := .ofList values.entries
  names := .ofList env.sortedNames

theorem find?_relisted (v : Variable) : (env.relisted values).find? v = env.find? v :=
  values.find?_ofList v.id

theorem names_find?_relisted (name : String) :
    (env.relisted values).names.find? name = env.names.find? name :=
  (Dictionary.Listing.sorted (fun a b => (compare a b).isLE) env.names).find?_ofList name

/-- An id is read from the name of its member. -/
theorem idOfName?_idName (id : UInt64) : idOfName? (idName id) = some id := by
  have hread : Json.readNumber (idName id).toList = some (.integer false id.toNat, []) := by
    have h := Json.readNumber_integer false id.toNat Json.endsNumber_nil
    rwa [List.append_nil] at h
  have hbelow : (Json.integer false id.toNat).below? (2 ^ 64) = some id.toNat :=
    if_pos id.toNat_lt
  rw [idOfName?, hread]
  simp only [hbelow, Option.map_some, UInt64.ofNat_toNat]

/-- A value with the id of its variable as the name of a member. -/
def valueMember (e : UInt64 × Term) : String × Json := (idName e.1, e.2.toJson)

/-- A named variable with its name as the name of a member. -/
def nameMember (e : String × Variable) : String × Json := (e.1, e.2.toJson)

theorem toJson_eq (env : Bindings) (values : env.values.Listing) :
    env.toJson values = .object [("values", .object (values.entries.map valueMember)),
      ("names", .object (env.sortedNames.map nameMember))] := rfl

theorem isPlain_toJson (env : Bindings) (values : env.values.Listing) :
    (env.toJson values).IsPlain := by
  rw [toJson_eq]
  refine Json.isPlain_members (.object fun m hm => ?_) (.object fun m hm => ?_)
  · obtain ⟨e, -, rfl⟩ := List.mem_map.1 hm
    exact e.2.isPlain_toJson
  · obtain ⟨e, -, rfl⟩ := List.mem_map.1 hm
    exact e.2.restores.plain

/-- **Bindings are read as they were written**, with their values as listed. -/
theorem restores (h : ∀ v t, env.find? v = some t → t.IsFinite) (values : env.values.Listing) :
    Json.Restores ofJson? (env.toJson values) (env.relisted values) := by
  refine ⟨env.isPlain_toJson values, ?_⟩
  have hvalues : ((values.entries.map valueMember).map Json.writtenMember).mapM (fun m => do
      some (← idOfName? m.1, ← Term.ofJson? m.2)) = some values.entries := by
    rw [List.map_map]
    refine mapM_map_eq_some fun e he => ?_
    have hmem : (e.1, e.2) ∈ env.values.entries := values.perm.mem_iff.1 he
    have hfinite : e.2.IsFinite := h ⟨"", e.1⟩ e.2 ((env.values.mem_entries_iff _ _).1 hmem)
    simp only [Function.comp_apply, valueMember, Json.writtenMember_mk, idOfName?_idName,
      (Term.restores hfinite).eq_some, Option.bind_eq_bind, Option.bind_some]
  have hnames : ((env.sortedNames.map nameMember).map Json.writtenMember).mapM (fun m => do
      some (m.1, ← Variable.ofJson? m.2)) = some env.sortedNames := by
    rw [List.map_map]
    refine mapM_map_eq_some fun e _ => ?_
    simp only [Function.comp_apply, nameMember, Json.writtenMember_mk, e.2.restores.eq_some,
      Option.bind_eq_bind, Option.bind_some]
  rw [toJson_eq, ofJson?]
  simp only [Option.bind_eq_bind] at hvalues hnames
  simp only [Json.written_object, List.map_cons, List.map_nil, Json.writtenMember_mk,
    Json.member?_first (show "names" ≠ "values" by decide),
    Json.member?_second (show "values" ≠ "names" by decide), Json.members?, Option.bind_eq_bind,
    Option.bind_some, hvalues, hnames]
  rfl

/-- The order of entries makes no difference to what bindings bind and name. -/
theorem same_relisted (h : ∀ v t, env.find? v = some t → t.IsFinite)
    (values : env.values.Listing) : env.same (env.relisted values) = true := by
  rw [same, Bool.and_eq_true]
  constructor
  · refine Dictionary.same_of_find?_eq (fun k => (values.find?_ofList k).symm) ?_
    intro k t hk
    exact Term.equal_iff.2 ⟨Term.Same.refl t, (h ⟨"", k⟩ t hk).ordered⟩
  · refine Dictionary.same_of_find?_eq (fun k => (names_find?_relisted k).symm) ?_
    intro k v _
    exact beq_self_eq_true _

end Bindings

/-! ### Texts -/

namespace Json

/-- **Reading a text undoes writing it**, without a limit to how deep it may be nested: for terms,
numbers, bindings and errors in which all doubles are finite, what is read from the text is what it
was written for.  Of bindings it has the same values and the same named variables, in whatever order
the values were written.  An infinity or a NaN is written as `null`, and the text of a term with one
in it is always rejected. -/
theorem read_text :
    (∀ t : Term, t.IsFinite → ∀ depth, t.toJson.depth ≤ depth →
      (readWithin? depth t.toJson.text).bind Term.ofJson? = some t ∧ t.equal t = true) ∧
    (∀ n : Number, n.IsFinite → ∀ depth, n.toJson.depth ≤ depth →
      (readWithin? depth n.toJson.text).bind Number.ofJson? = some n ∧ n.equal n = true) ∧
    (∀ env : Bindings, (∀ v t, env.find? v = some t → t.IsFinite) →
      ∀ (values : env.values.Listing) (depth : ℕ), (env.toJson values).depth ≤ depth →
        ∃ env', (readWithin? depth (env.toJson values).text).bind Bindings.ofJson? = some env' ∧
          (∀ v, env'.find? v = env.find? v) ∧
          (∀ name, env'.names.find? name = env.names.find? name) ∧ env.same env' = true) ∧
    (∀ e : Error, ∀ depth, e.toJson.depth ≤ depth →
      (readWithin? depth e.toJson.text).bind Error.ofJson? = some e) ∧
    (∀ x : Binary64, x.isFinite = false →
      (Number.float x).toJson.text = "\x7b\"Float\":null\x7d") ∧
    ∀ t : Term, ¬ t.IsFinite → ∀ depth, (readWithin? depth t.toJson.text).bind Term.ofJson? = none := by
  refine ⟨?_, ?_, ?_, ?_, ?_, ?_⟩
  · intro t ht depth hdepth
    exact ⟨(Term.restores ht).read hdepth, Term.equal_iff.2 ⟨.refl t, ht.ordered⟩⟩
  · intro n hn depth hdepth
    have hequal : (Term.num n).equal (.num n) = true :=
      Term.equal_iff.2 ⟨.refl _, Term.IsFinite.ordered hn⟩
    exact ⟨(Number.restores hn).read hdepth, hequal⟩
  · intro env henv values depth hdepth
    exact ⟨env.relisted values, (Bindings.restores henv values).read hdepth,
      Bindings.find?_relisted, Bindings.names_find?_relisted, Bindings.same_relisted henv values⟩
  · intro e depth hdepth
    exact e.restores.read hdepth
  · intro x hx
    rw [Number.toJson, Number.floatToJson_of_not_isFinite hx]
    rfl
  · intro t ht depth
    exact bind_readWithin?_eq_none t.isPlain_toJson (Term.ofJson?_of_not_isFinite ht) depth

/-- A named variable and another one, with their values. -/
def twoValues : Bindings :=
  ((Bindings.assign .empty ⟨"X", 7⟩ (.ofBinary64 (.zero true))).assign ⟨"Y", 3⟩ (.atom "a")).withNames
    [⟨"X", 7⟩]

/-- The values in one order and in the other. -/
def twoListings : List twoValues.values.Listing :=
  [⟨[(3, .atom "a"), (7, .ofBinary64 (.zero true))], .refl _⟩,
   ⟨[(7, .ofBinary64 (.zero true)), (3, .atom "a")], .swap _ _ []⟩]

/-- Numbers of several limbs, a negative zero and a compound without arguments, in a term and in the
values of variables, which are written in either order; and an infinity deep in a term. -/
theorem read_text_nested :
    (∃ depth, (readWithin? depth (Term.toJson (.compound "f\n" [.num (.int (-2 ^ 64)),
        .num (.ratio (-1 / 3)), .ofBinary64 (.zero true), .compound "" []])).text).bind
          Term.ofJson? =
      some (.compound "f\n" [.num (.int (-2 ^ 64)), .num (.ratio (-1 / 3)),
        .ofBinary64 (.zero true), .compound "" []])) ∧
      (∀ values ∈ twoListings, ∃ depth env',
        (readWithin? depth (twoValues.toJson values).text).bind Bindings.ofJson? = some env' ∧
        env'.find? ⟨"X", 7⟩ = some (.ofBinary64 (.zero true)) ∧
        env'.find? ⟨"Y", 3⟩ = some (.atom "a") ∧ env'.names.find? "X" = some ⟨"X", 7⟩) ∧
      (readWithin? 127 (Term.toJson (.compound "g" [.atom "a",
        .ofBinary64 (.infinity false)])).text).bind Term.ofJson? = none := by
  obtain ⟨hterms, -, hbindings, -, -, hreject⟩ := read_text
  have hvalues : ∀ v t, twoValues.find? v = some t → t.IsFinite := by
    intro v t hv
    have hmem : (v.id, t) ∈ [(3, .atom "a"), (7, .ofBinary64 (.zero true))] :=
      (Dictionary.mem_entries_iff _ _ _).2 hv
    obtain h | h := List.mem_pair.1 hmem
    · rw [(Prod.mk.inj h).2]
      trivial
    · rw [(Prod.mk.inj h).2]
      rfl
  refine ⟨⟨_, (hterms _ ?_ _ le_rfl).1⟩, fun values _ => ?_, hreject _ ?_ 127⟩
  · exact ⟨trivial, trivial, rfl, trivial, trivial⟩
  · obtain ⟨env', hread, hfind, hnames, -⟩ := hbindings _ hvalues values _ le_rfl
    exact ⟨_, env', hread, (hfind _).trans rfl, (hfind _).trans rfl,
      (hnames _).trans (Dictionary.find?_insert_self _ _ _)⟩
  · rintro ⟨-, h, -⟩
    exact nomatch h

end Json

end LogicTerms
