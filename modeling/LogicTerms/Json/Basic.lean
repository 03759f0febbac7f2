/-
**JSON values.**

A number is an integer or a decimal, by whether it is written with a point or an exponent; its sign
is kept apart, so that minus zero is not zero.  The members of an object keep their order, and may
repeat a name.

Main definitions:

* `Json` — a value;
* `Json.depth` — how deep its arrays and objects are nested;
* `Json.member?` — the one member of an object that has a name;
* `Json.tagged`, `Json.untag?` — an object of a single member;
* `Json.natural?`, `Json.string?`, `Json.items?` — values of one type.
-/

import LogicTerms.Decimal

set_option relaxedAutoImplicit false
set_option autoImplicit false

namespace LogicTerms

/-- A JSON value. -/
inductive Json where
  /-- The value `null`. -/
  | null
  /-- A truth value. -/
  | bool (b : Bool)
  /-- A number without a point and without an exponent. -/
  | integer (negative : Bool) (magnitude : Nat)
  /-- A number with a point, an exponent or both. -/
  | decimal (negative : Bool) (magnitude : Decimal)
  /-- A string. -/
  | string (s : String)
  /-- An array. -/
  | array (items : List Json)
  /-- An object with its members in order. -/
  | object (members : List (String × Json))

namespace Json

mutual

/-- How deep arrays and objects are nested. -/
def depth : Json → Nat
  | array items => itemsDepth items + 1
  | object members => membersDepth members + 1
  | _ => 0

/-- The greatest depth among items. -/
def itemsDepth : List Json → Nat
  | [] => 0
  | j :: js => max (depth j) (itemsDepth js)

/-- The greatest depth among members. -/
def membersDepth : List (String × Json) → Nat
  | [] => 0
  | m :: ms => max (memberDepth m) (membersDepth ms)

/-- The depth of a member. -/
def memberDepth : String × Json → Nat
  | (_, j) => depth j

end

/-! ### Making values -/

/-- A whole number. -/
def ofNat (n : Nat) : Json := integer false n

/-- An object of a single member. -/
def tagged (name : String) (j : Json) : Json := object [(name, j)]

/-! ### Taking values apart -/

/-- The only member of an object. -/
def untag? : Json → Option (String × Json)
  | object [m] => some m
  | _ => none

/-- The member of an object with the given name; none if it is missing or repeated. -/
def member? (name : String) : Json → Option Json
  | object members =>
    match members.filter (·.1 == name) with
    | [m] => some m.2
    | _ => none
  | _ => none

/-- A whole number; minus zero is none. -/
def natural? : Json → Option Nat
  | integer false n => some n
  | _ => none

/-- A whole number below a bound. -/
def below? (bound : Nat) (j : Json) : Option Nat :=
  match j.natural? with
  | some n => if n < bound then some n else none
  | none => none

/-- A string. -/
def string? : Json → Option String
  | string s => some s
  | _ => none

/-- The items of an array. -/
def items? : Json → Option (List Json)
  | array items => some items
  | _ => none

/-- The two items of an array of two. -/
def pair? : Json → Option (Json × Json)
  | array [a, b] => some (a, b)
  | _ => none

/-- The members of an object. -/
def members? : Json → Option (List (String × Json))
  | object members => some members
  | _ => none

end Json

end LogicTerms
