import JsonLisp.Proofs.Simulation.WellFormed
import JsonLisp.Proofs.Value.Order

/-!
# Comparison by the primitives

Equality is an equivalence on values without not-a-number, and never takes a boolean for a number.
The primitives of order agree with each other, and with equality as long as no boolean stands
within a list where the other list has a number.

## Main definitions

* `Relation.Comparable`: two values that have a place in the order.
* `Relation.Answers`: a primitive gives a truth value for two values.

## Main results

* `same_equivalence`
* `comparisons_consistent`
-/

namespace JsonLisp

open Value (DistinctKeys)

/-- All values that programs make are regular. -/
theorem Value.WellFormed.regular {v : Value} (h : v.WellFormed) : v.Regular where
  keys path w hw := by
    have hproper := h.throughout path w hw
    cases w with
    | map entries => exact hproper
    | null | bool | int | float | text | list | closure | builtin => trivial
  withoutNaN path w hw := by
    refine isNaN_eq_false_iff.2 fun payload hnan => ?_
    have hproper := h.throughout path w hw
    fun_cases content w <;> cases hnan
    cases hproper

namespace Relation

variable {r : Relation} {a b v : Value}

theorem applyValue_symbol (limits : Limits) (r : Relation) (args : List Value) :
    applyValue (engine limits) (.builtin r.symbol) args = Run.ofExcept (r.chain args) := by
  cases r <;> rfl

/-- A primitive of comparison that answers leaves the state as it was. -/
theorem applyValue_eq_ok_iff {limits : Limits} {args : List Value} {s t : State} :
    applyValue (engine limits) (.builtin r.symbol) args s = .ok v t ↔
      r.chain args = .ok v ∧ t = s := by
  rw [applyValue_symbol]
  cases r.chain args with
  | ok u =>
    constructor
    · intro h
      cases h
      exact ⟨rfl, rfl⟩
    · rintro ⟨h, rfl⟩
      cases h
      rfl
  | error e => exact ⟨nofun, nofun⟩

/-! ### Equality of several arguments -/

theorem neighbours_ok (test : Value → Value → Bool) (args : List Value) :
    ∃ t, neighbours (fun a b => .ok (test a b)) args = .ok t ∧
      (t = true ↔ args.IsChain fun a b => test a b = true) := by
  fun_induction neighbours (fun a b => .ok (test a b)) args with
  | case1 a b rest h ih =>
    obtain ⟨t, ht, hiff⟩ := ih
    have hab : test a b = true := by simpa using h
    exact ⟨t, ht, by simp [hiff, hab]⟩
  | case2 a b rest h =>
    have hab : test a b = false := by simpa using h
    exact ⟨false, by simp [hab], by simp [hab]⟩
  | case3 args hshort =>
    refine ⟨true, rfl, ?_⟩
    match args, hshort with
    | [], _ => simp
    | [a], _ => simp
    | a :: b :: rest, hshort => exact absurd rfl (hshort a b rest)

theorem chain_equal {args : List Value} (h : 2 ≤ args.length) :
    ∃ t, equal.chain args = .ok (.bool t) ∧
      (t = true ↔ args.IsChain fun a b => a.same b = true) := by
  obtain ⟨t, ht, hiff⟩ := neighbours_ok Value.same args
  have hholds : neighbours equal.holds args = .ok t := ht
  exact ⟨t, by simp [chain, isOrder, hholds, Nat.not_lt.2 h], hiff⟩

/-! ### Order of two arguments -/

/-- Two values that have a place in the order of values, and are not booleans. -/
structure Comparable (a b : Value) : Prop where
  left : a.isBool = false
  right : b.isBool = false
  compare_ne : ∀ x y, a.compare b ≠ .incomparable x y

theorem Comparable.swap (ha : a.Throughout DistinctKeys) (hb : b.Throughout DistinctKeys)
    (h : Comparable a b) : Comparable b a where
  left := h.right
  right := h.left
  compare_ne x y hxy := by
    rw [Value.compare_swap ha hb] at hxy
    cases hcompare : a.compare b with
    | incomparable x y => exact h.compare_ne x y hcompare
    | unordered | ordered => simp [hcompare, Comparison.swap] at hxy

/-- Whether values that are compared with this outcome stand in a relation of order. -/
def satisfied (r : Relation) : Comparison → Bool
  | .ordered o => r.admits o
  | _ => false

theorem incomparable_ne_ok (args : List Value) : r.incomparable args ≠ .ok v := by
  unfold incomparable
  cases Value.encodeItems args <;> nofun

theorem neighbours_pair (test : Value → Value → Except OperationFault Bool) (a b : Value) :
    neighbours test [a, b] = test a b := by
  cases h : test a b with
  | ok t => cases t <;> simp [neighbours, h]
  | error fault => simp [neighbours, h]

theorem holds_order (hr : r.isOrder = true) (hcompare : ∀ x y, a.compare b ≠ .incomparable x y) :
    r.holds a b = .ok (r.satisfied (a.compare b)) := by
  cases h : a.compare b with
  | incomparable x y => exact absurd h (hcompare x y)
  | unordered | ordered => cases r <;> simp_all [holds, isOrder, satisfied]

theorem Comparable.chain_eq (hr : r.isOrder = true) (h : Comparable a b) :
    r.chain [a, b] = .ok (.bool (r.satisfied (a.compare b))) := by
  simp [chain, neighbours_pair, h.left, h.right, holds_order hr h.compare_ne]

/-- A primitive of order has an answer for comparable values only. -/
theorem comparable_of_chain (hr : r.isOrder = true) (h : r.chain [a, b] = .ok v) :
    Comparable a b := by
  have hbool : a.isBool = false ∧ b.isBool = false := by
    by_contra hbool
    have hchain : r.chain [a, b] = r.incomparable [a, b] := by
      simp only [not_and_or, Bool.not_eq_false] at hbool
      simp [chain, hr, hbool]
    exact incomparable_ne_ok _ (hchain.symm.trans h)
  refine ⟨hbool.1, hbool.2, fun x y hcompare => ?_⟩
  obtain ⟨fault, hfault⟩ : ∃ fault, r.holds a b = .error fault := by
    cases r <;> simp_all [holds, isOrder]
  have hchain : r.chain [a, b] = (r.incomparable [a, b]).mapError (.reporting fault) := by
    simp [chain, neighbours_pair, hbool, hfault]
  rw [hchain] at h
  cases hargs : r.incomparable [a, b] with
  | ok u => exact incomparable_ne_ok _ hargs
  | error e => simp [hargs, Except.mapError] at h

/-! ### Answers -/

/-- The primitive of a name gives a truth value for two values, in all states and without a
change. -/
def Answers (name : String) (a b : Value) (t : Bool) : Prop :=
  ∀ limits s, applyValue (engine limits) (.builtin (Text.ofString name)) [a, b] s = .ok (.bool t) s

theorem answers_of_chain {t : Bool} (name : String) (hname : r.symbol = Text.ofString name)
    (h : r.chain [a, b] = .ok (.bool t)) : Answers name a b t := by
  intro limits s
  rw [← hname]
  exact applyValue_eq_ok_iff.2 ⟨h, rfl⟩

theorem satisfied_swap (c : Comparison) :
    greater.satisfied c = less.satisfied c.swap ∧
      greaterEqual.satisfied c = lessEqual.satisfied c.swap := by
  cases c with
  | incomparable | unordered => exact ⟨rfl, rfl⟩
  | ordered o => cases o <;> exact ⟨rfl, rfl⟩

theorem Answers.unique {name : String} {t u : Bool} (ht : Answers name a b t)
    (hu : Answers name a b u) : t = u := by
  simpa using (ht ⟨0, 0⟩ .empty).symm.trans (hu ⟨0, 0⟩ .empty)

theorem Comparable.answers (h : Comparable a b) :
    Answers "<" a b (less.satisfied (a.compare b)) ∧
      Answers "<=" a b (lessEqual.satisfied (a.compare b)) ∧
      Answers ">=" a b (greaterEqual.satisfied (a.compare b)) ∧
      Answers ">" a b (greater.satisfied (a.compare b)) :=
  ⟨answers_of_chain "<" rfl (h.chain_eq rfl), answers_of_chain "<=" rfl (h.chain_eq rfl),
    answers_of_chain ">=" rfl (h.chain_eq rfl), answers_of_chain ">" rfl (h.chain_eq rfl)⟩

theorem answers_equal (a b : Value) : Answers "==" a b (a.same b) := by
  refine answers_of_chain "==" (r := equal) rfl ?_
  simp [chain, isOrder, neighbours_pair, holds]

end Relation

open JsonLisp.Relation (Answers)

/-- On values without not-a-number and with distinct keys, equality is an equivalence relation. Two
such values are equal if they have the same content at each position: the same exact number, the
same closure, a reference to the same primitive, or the same text, boolean or null. So they have the
same booleans in the same places. The primitive for equality looks at neighbours only, but finds out
whether all its arguments are equal to each other. -/
theorem same_equivalence {a b c : Value} (ha : a.Regular) (hb : b.Regular) :
    (a.same a = true ∧ a.same b = b.same a ∧
      (a.same b = true → b.same c = true → a.same c = true)) ∧
    (a.same b = true ↔ ∀ path, (a.at? path).map Value.content = (b.at? path).map Value.content) ∧
    (a.same b = true → ∀ path t, a.at? path = some (.bool t) ↔ b.at? path = some (.bool t)) ∧
    ∀ (limits : Limits) (s : State) (args : List Value), 2 ≤ args.length →
      (∀ x ∈ args, x.Regular) →
      ∃ t, applyValue (engine limits) (.builtin (Text.ofString "==")) args s = .ok (.bool t) s ∧
        (t = true ↔ ∀ x ∈ args, ∀ y ∈ args, x.same y = true) := by
  refine ⟨⟨ha.same_self, ha.same_comm hb, ha.same_trans hb⟩, ha.same_iff,
    fun h => (ha.same_iff.1 h).at?_eq_bool_iff, fun limits s args hlength hargs => ?_⟩
  obtain ⟨t, ht, hiff⟩ := Relation.chain_equal hlength
  have happly : applyValue (engine limits) (.builtin Relation.equal.symbol) args s =
      .ok (.bool t) s := Relation.applyValue_eq_ok_iff.2 ⟨ht, rfl⟩
  exact ⟨t, happly, hiff.trans (Value.isChain_same_iff hargs)⟩

/-- A list that mixes an integer with a map, and one with a floating point number in which the keys
of the map have changed places. -/
theorem same_equivalence_mixedNumbers :
    let k := Text.ofString "k"
    let l := Text.ofString "l"
    let a : Value := .list [.int 2, .map [(k, .bool true), (l, .null)]]
    let b : Value := .list [.float (.ofInt 2), .map [(l, .null), (k, .bool true)]]
    (a.Regular ∧ b.Regular) ∧ a.same b = true ∧ b.same a = true ∧
      b.at? [.index 1, .key k] = some (.bool true) ∧
      applyValue (engine ⟨1, 1⟩) (.builtin (Text.ofString "==")) [a, b, a] .empty =
        .ok (.bool true) .empty := by
  intro k l a b
  have hfinite : (Binary64.ofInt 2).isFinite = true := by decide
  have ha : a.Regular := Value.WellFormed.regular (by simp [a, k, l, Text.ofString])
  have hb : b.Regular := Value.WellFormed.regular (by simp [b, k, l, Text.ofString, hfinite])
  obtain ⟨⟨hself, hcomm, -⟩, -, hbools, happly⟩ := same_equivalence (c := a) ha hb
  have hab : a.same b = true := by decide +kernel
  have hba : b.same a = true := hcomm.symm.trans hab
  have hat : b.at? [.index 1, .key k] = some (.bool true) := (hbools hab _ true).1 rfl
  obtain ⟨t, ht, hiff⟩ := happly ⟨1, 1⟩ .empty [a, b, a] (by decide) (by simp [ha, hb])
  have htrue : t = true := hiff.2 (by simp [hself, hab, hba, hb.same_self])
  exact ⟨⟨ha, hb⟩, hab, hba, hat, htrue ▸ ht⟩

/-- Where `<` has an answer for two values, so have `<=`, `==`, `>=` and `>`, and `>` and `>=` are
`<` and `<=` of the values exchanged. At most one of `<`, `==` and `>` holds, and `<` and `==` both
imply `<=`. Where `<=` holds without `<`, the values are equal with the booleans as numbers. So they
are equal, unless a boolean of one list stands where the other has a number. -/
theorem comparisons_consistent {limits : Limits} {s t : State} {a b v : Value}
    (ha : a.Throughout DistinctKeys) (hb : b.Throughout DistinctKeys)
    (hless : applyValue (engine limits) (.builtin (Text.ofString "<")) [a, b] s = .ok v t) :
    ∃ lt le eq ge gt : Bool,
      (Answers "<" a b lt ∧ Answers "<=" a b le ∧ Answers "==" a b eq ∧ Answers ">=" a b ge ∧
        Answers ">" a b gt) ∧
      (Answers "<" b a gt ∧ Answers "<=" b a ge) ∧
      (¬ (lt = true ∧ eq = true) ∧ ¬ (lt = true ∧ gt = true) ∧ ¬ (eq = true ∧ gt = true)) ∧
      (lt = true ∨ eq = true → le = true) ∧ (le = true → lt = true ∨ a.alike b = true) ∧
      (¬ a.Blurred b → (le = true ↔ lt = true ∨ eq = true)) := by
  have hchain : Relation.less.chain [a, b] = .ok v := (Relation.applyValue_eq_ok_iff.1 hless).1
  have h : Relation.Comparable a b := Relation.comparable_of_chain rfl hchain
  obtain ⟨hlt, hle, hge, hgt⟩ := h.answers
  obtain ⟨hlt', hle', -, -⟩ := (h.swap ha hb).answers
  have hswap := Relation.satisfied_swap (a.compare b)
  rw [Value.compare_swap ha hb, ← hswap.1] at hlt'
  rw [Value.compare_swap ha hb, ← hswap.2] at hle'
  refine ⟨_, _, _, _, _, ⟨hlt, hle, Relation.answers_equal a b, hge, hgt⟩, ⟨hlt', hle'⟩, ?_⟩
  have hsame : a.same b = true → a.compare b = .ordered .eq := fun hsame =>
    (Value.compare_of_same ha hsame).resolve_right fun ⟨x, y, hxy⟩ => h.compare_ne x y hxy
  have halike : a.compare b = .ordered .eq → a.alike b = true := Value.alike_of_compare_eq
  have hclear : ¬ a.Blurred b → a.compare b = .ordered .eq → a.same b = true :=
    fun hclear hcompare => Value.same_of_alike ha (halike hcompare) hclear
  cases hcompare : a.compare b with
  | incomparable x y => exact absurd hcompare (h.compare_ne x y)
  | unordered => simp_all [Relation.satisfied]
  | ordered o => cases o <;> simp_all [Relation.satisfied, Relation.admits]

/-- Lists with an integer and a floating point number of one value, and with the same text: they are
less-or-equal and not less, and so equal. -/
theorem comparisons_consistent_mixedNumbers :
    let x : Value := .word "x"
    let a : Value := .list [.int 1, x]
    let b : Value := .list [.float (.ofInt 1), x]
    (a.Throughout DistinctKeys ∧ b.Throughout DistinctKeys) ∧ Answers "<" a b false ∧
      Answers "<=" a b true ∧ ¬ a.Blurred b ∧ Answers "==" a b true ∧ Answers ">" a b false := by
  intro x a b
  have hfinite : (Binary64.ofInt 1).isFinite = true := by decide
  have ha : a.Regular := Value.WellFormed.regular (by simp [a, x, Value.word])
  have hb : b.Regular := Value.WellFormed.regular (by simp [b, x, Value.word, hfinite])
  have hclear : ¬ a.Blurred b := by
    refine Value.not_blurred (Value.Everywhere.throughout ?_) (Value.Everywhere.throughout ?_)
    · refine Value.everywhere_list.2 ⟨⟨rfl, rfl⟩, List.forall_mem_cons.2 ⟨?_, ?_⟩⟩
      · exact (Value.everywhere_atom rfl).2 ⟨rfl, rfl⟩
      · exact List.forall_mem_singleton.2 ((Value.everywhere_atom rfl).2 ⟨rfl, rfl⟩)
    · refine Value.everywhere_list.2 ⟨rfl, List.forall_mem_cons.2 ⟨?_, ?_⟩⟩
      · exact (Value.everywhere_atom rfl).2 rfl
      · exact List.forall_mem_singleton.2 ((Value.everywhere_atom rfl).2 rfl)
  have hlt : Answers "<" a b false := fun _ _ => rfl
  have hle : Answers "<=" a b true := fun _ _ => rfl
  obtain ⟨lt, le, eq, ge, gt, ⟨hlt', hle', heq', -, hgt'⟩, -, ⟨-, -, hexcludes⟩, -, -, hiff⟩ :=
    comparisons_consistent ha.keys hb.keys (hlt ⟨1, 1⟩ .empty)
  obtain rfl := hlt'.unique hlt
  obtain rfl := hle'.unique hle
  obtain rfl : eq = true := by simpa using hiff hclear
  obtain rfl : gt = false := by simpa using hexcludes
  exact ⟨⟨ha.keys, hb.keys⟩, hlt, hle, hclear, heq', hgt'⟩

/-- Within lists, `<=` takes a boolean for a number, which `==` does not. -/
theorem lessEqual_trueAndOne :
    let a : Value := .list [.bool true]
    let b : Value := .list [.int 1]
    (a.Regular ∧ b.Regular) ∧ Answers "<=" a b true ∧ Answers "<" a b false ∧
      Answers "==" a b false ∧
      ¬ ∀ a b : Value, a.Regular → b.Regular → ∀ lt le eq, Answers "<" a b lt →
        Answers "<=" a b le → Answers "==" a b eq → (le = true ↔ lt = true ∨ eq = true) := by
  intro a b
  have ha : a.Regular := Value.WellFormed.regular (by simp [a])
  have hb : b.Regular := Value.WellFormed.regular (by simp [b])
  have hle : Answers "<=" a b true := fun _ _ => rfl
  have hlt : Answers "<" a b false := fun _ _ => rfl
  have heq : Answers "==" a b false := fun _ _ => rfl
  refine ⟨⟨ha, hb⟩, hle, hlt, heq, fun hall => ?_⟩
  simpa using hall a b ha hb false true false hlt hle heq

end JsonLisp
