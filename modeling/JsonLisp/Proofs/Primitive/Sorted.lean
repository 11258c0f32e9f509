import JsonLisp.Proofs.Primitive.Comparison
import JsonLisp.Proofs.Primitive.Refusal
import Mathlib.Data.List.Chain
import Mathlib.Data.List.Forall2
import Mathlib.Data.List.Lex

/-!
# Order of several arguments

A primitive of order looks at neighbours only. Numbers and texts are ordered linearly, so for them
it finds out whether the whole list is sorted. For other values the first pair that does not satisfy
the relation decides: it makes the result false, or the comparison fails because the two values are
incomparable.

## Main definitions

* `Value.rational?`: the mathematical value of a number.
* `Relation.Orders`: the relation that a primitive of order has on a linearly ordered type.
* `Relation.Related`, `Value.Incomparable`: what can be found out about two values.
* `Relation.Meets`: the comparison reaches two incomparable values.

## Main results

* `order_sorted`
-/

namespace JsonLisp

/-- Texts are compared in the lexicographic order of lists. -/
theorem Text.compares_compareLex (s t : Text) : (List.compareLex compare s t).Compares s t := by
  induction s generalizing t with
  | nil =>
    cases t with
    | nil => exact rfl
    | cons d t => exact List.nil_lt_cons d t
  | cons c s ih =>
    cases t with
    | nil => exact List.nil_lt_cons c s
    | cons d t =>
      rw [List.compareLex_cons_cons]
      cases hcompare : compare c d with
      | lt => exact List.cons_lt_cons_iff.2 (.inl (compare_lt_iff_lt.1 hcompare))
      | gt => exact List.cons_lt_cons_iff.2 (.inl (compare_gt_iff_gt.1 hcompare))
      | eq =>
        obtain rfl := compare_eq_iff_eq.1 hcompare
        have ih := ih t
        rw [Ordering.eq_then]
        generalize List.compareLex compare s t = o at ih
        cases o with
        | lt => exact List.cons_lt_cons_iff.2 (.inr ⟨rfl, ih⟩)
        | eq => exact congrArg (List.cons c) ih
        | gt => exact List.cons_lt_cons_iff.2 (.inr ⟨rfl, ih⟩)

namespace Value

variable {a b : Value}

/-- The mathematical value of an integer or of a finite floating point number. -/
def rational? : Value → Option ℚ
  | .int n => some n
  | .float (.finite x) => some x.value
  | _ => none

theorem content_of_rational? {p : ℚ} (h : a.rational? = some p) :
    a.content.blur = .number (.ofRat p) := by
  revert h
  fun_cases rational? a with
  | case1 n =>
    rintro ⟨⟩
    rfl
  | case2 x =>
    rintro ⟨⟩
    rfl
  | case3 => exact nofun

theorem compare_of_rational? {p q : ℚ} (ha : a.rational? = some p) (hb : b.rational? = some q) :
    a.compare b = .ordered (cmp p q) := by
  have hlists : ∀ xs ys, a = .list xs → b ≠ .list ys := by
    rintro xs ys rfl
    cases ha
  rw [compare_of_not_lists hlists, compareAtoms_eq_ordered_iff]
  exact .inl ⟨_, _, content_of_rational? ha, content_of_rational? hb, Point.compare_ofRat p q⟩

theorem isBool_of_rational? {p : ℚ} (h : a.rational? = some p) : a.isBool = false := by
  cases a <;> first | rfl | cases h

/-- There is no order between the two values. -/
def Incomparable (a b : Value) : Prop := ∃ left right, a.compare b = .incomparable left right

end Value

namespace Relation

open Value (Incomparable)

variable {r : Relation} {a b : Value} {args : List Value}

/-! ### Linear orders -/

section Linear

variable {α : Type} [LinearOrder α] {x y z : α}

/-- What a relation means for the elements of an ordered type. -/
def Orders (r : Relation) (x y : α) : Prop :=
  match r with
  | .less => x < y
  | .lessEqual => x ≤ y
  | .greater => x > y
  | .greaterEqual => x ≥ y
  | .equal => x = y
  | .unequal => x ≠ y

theorem admits_iff {o : Ordering} (h : o.Compares x y) : r.admits o = true ↔ r.Orders x y := by
  cases o with
  | lt =>
    have hlt : x < y := h
    cases r <;> simp [admits, Orders, hlt, hlt.le, hlt.not_gt, hlt.ne]
  | eq =>
    obtain rfl : x = y := h
    cases r <;> simp [admits, Orders]
  | gt =>
    have hgt : y < x := h
    cases r <;> simp [admits, Orders, hgt, hgt.le, hgt.not_gt, hgt.ne']

theorem Orders.trans (hr : r.isOrder = true) (hxy : r.Orders x y) (hyz : r.Orders y z) :
    r.Orders x z := by
  cases r with
  | less => exact lt_trans hxy hyz
  | lessEqual => exact le_trans hxy hyz
  | greater => exact gt_trans hxy hyz
  | greaterEqual => exact ge_trans hxy hyz
  | equal | unequal => cases hr

theorem isChain_orders_iff (hr : r.isOrder = true) {xs : List α} :
    xs.IsChain r.Orders ↔ xs.Pairwise r.Orders :=
  haveI : Trans (α := α) r.Orders r.Orders r.Orders := ⟨Orders.trans hr⟩
  List.isChain_iff_pairwise

end Linear

/-! ### Neighbours -/

/-- Some neighbours fail, and all pairs of neighbours before them hold. -/
def Reaches (holds fails : Value → Value → Prop) (args : List Value) : Prop :=
  ∃ before a b after, args = before ++ a :: b :: after ∧ (before ++ [a]).IsChain holds ∧ fails a b

theorem not_reaches_of_short {holds fails : Value → Value → Prop}
    (hshort : ∀ a b rest, args ≠ a :: b :: rest) : ¬ Reaches holds fails args := by
  rintro ⟨before, a, b, after, rfl, -⟩
  match before, hshort with
  | [], hshort => exact hshort a b after rfl
  | [c], hshort => exact hshort c a (b :: after) rfl
  | c :: d :: before, hshort => exact hshort c d (before ++ a :: b :: after) rfl

theorem reaches_cons_cons {holds fails : Value → Value → Prop} {rest : List Value} :
    Reaches holds fails (a :: b :: rest) ↔
      fails a b ∨ holds a b ∧ Reaches holds fails (b :: rest) := by
  constructor
  · rintro ⟨before, c, d, after, hargs, hchain, hfails⟩
    match before with
    | [] =>
      cases hargs
      exact .inl hfails
    | [x] =>
      cases hargs
      exact .inr ⟨(List.isChain_cons_cons.1 hchain).1,
        [], b, d, after, rfl, List.isChain_singleton b, hfails⟩
    | x :: y :: before =>
      cases hargs
      obtain ⟨hab, hchain⟩ := List.isChain_cons_cons.1 hchain
      exact .inr ⟨hab, b :: before, c, d, after, rfl, hchain, hfails⟩
  · rintro (hfails | ⟨hab, before, c, d, after, hargs, hchain, hfails⟩)
    · exact ⟨[], a, b, rest, rfl, List.isChain_singleton a, hfails⟩
    · refine ⟨a :: before, c, d, after, congrArg (List.cons a) hargs, ?_, hfails⟩
      cases before with
      | nil =>
        cases hargs
        exact List.isChain_cons_cons.2 ⟨hab, hchain⟩
      | cons x before =>
        cases hargs
        exact List.isChain_cons_cons.2 ⟨hab, hchain⟩

theorem neighbours_eq_true_iff (test : Value → Value → Except OperationFault Bool) :
    neighbours test args = .ok true ↔ args.IsChain fun a b => test a b = .ok true := by
  fun_induction neighbours test args with
  | case1 a b rest h ih => rw [ih, List.isChain_cons_cons, and_iff_right h]
  | case2 a b rest h => exact iff_of_false h fun hchain => h (List.isChain_cons_cons.1 hchain).1
  | case3 args hshort =>
    rcases args with _ | ⟨a, _ | ⟨b, rest⟩⟩
    · simp
    · simp
    · exact absurd rfl (hshort a b rest)

/-- A pair without an answer is reached if all pairs before it have passed the test. -/
theorem exists_neighbours_eq_error_iff (test : Value → Value → Except OperationFault Bool) :
    (∃ fault, neighbours test args = .error fault) ↔
      Reaches (fun a b => test a b = .ok true) (fun a b => ∃ fault, test a b = .error fault)
        args := by
  fun_induction neighbours test args with
  | case1 a b rest h ih =>
    rw [ih, reaches_cons_cons]
    simp [h]
  | case2 a b rest h => rw [reaches_cons_cons, or_iff_left fun hrest => h hrest.1]
  | case3 args hshort =>
    refine iff_of_false ?_ (not_reaches_of_short hshort)
    rintro ⟨fault, h⟩
    cases h

/-! ### Order of values -/

/-- The pair satisfies a relation of order. -/
def Related (r : Relation) (a b : Value) : Prop :=
  ∃ o, a.compare b = .ordered o ∧ r.admits o = true

/-- Two neighbours are incomparable, and all pairs before them satisfy the relation. -/
def Meets (r : Relation) (args : List Value) : Prop := Reaches r.Related Incomparable args

theorem holds_eq_true_iff (hr : r.isOrder = true) : r.holds a b = .ok true ↔ r.Related a b := by
  cases h : a.compare b <;> cases r <;> simp_all [holds, isOrder, Related]

theorem exists_holds_eq_error_iff (hr : r.isOrder = true) :
    (∃ fault, r.holds a b = .error fault) ↔ Incomparable a b := by
  cases h : a.compare b <;> cases r <;> simp_all [holds, isOrder, Incomparable]

theorem neighbours_holds_eq_true_iff (hr : r.isOrder = true) :
    neighbours r.holds args = .ok true ↔ args.IsChain r.Related := by
  simp only [neighbours_eq_true_iff, holds_eq_true_iff hr]

theorem exists_neighbours_holds_eq_error_iff (hr : r.isOrder = true) :
    (∃ fault, neighbours r.holds args = .error fault) ↔ r.Meets args := by
  rw [exists_neighbours_eq_error_iff]
  simp only [holds_eq_true_iff hr, exists_holds_eq_error_iff hr]
  rfl

theorem refused_incomparable (r : Relation) (args : List Value) :
    Refused .type (.list args) (r.incomparable args) :=
  refused_throw (.incomparable r.symbol) (fun _ => rfl) (.list args)

theorem refused_chain_isBool (hr : r.isOrder = true) (hlength : 2 ≤ args.length)
    (h : ∃ a ∈ args, a.isBool = true) : Refused .type (.list args) (r.chain args) := by
  have hany : args.any Value.isBool = true := List.any_eq_true.2 h
  have hchain : r.chain args = r.incomparable args := by
    simp [chain, hr, hany, Nat.not_lt.2 hlength]
  rw [hchain]
  exact refused_incomparable r args

section WithoutBooleans

variable (hlength : 2 ≤ args.length) (hbool : ∀ a ∈ args, a.isBool = false)

include hlength hbool

theorem chain_eq_of_neighbours {t : Bool} (h : neighbours r.holds args = .ok t) :
    r.chain args = .ok (.bool t) := by
  have hany : args.any Value.isBool = false := List.any_eq_false.2 (by simpa using hbool)
  simp [chain, hany, Nat.not_lt.2 hlength, h]

/-- The comparison fails if it reaches an incomparable pair. -/
theorem refused_chain_of_meets (hr : r.isOrder = true) (h : r.Meets args) :
    Refused .type (.list args) (r.chain args) := by
  obtain ⟨fault, hfault⟩ := (exists_neighbours_holds_eq_error_iff hr).2 h
  have hany : args.any Value.isBool = false := List.any_eq_false.2 (by simpa using hbool)
  have hchain : r.chain args = (r.incomparable args).mapError (.reporting fault) := by
    simp [chain, hany, Nat.not_lt.2 hlength, hfault]
  rw [hchain]
  exact (refused_incomparable r args).reporting fault

theorem exists_chain_eq_ok (hr : r.isOrder = true) (h : ¬ r.Meets args) :
    ∃ t, r.chain args = .ok (.bool t) ∧ (t = true ↔ args.IsChain r.Related) := by
  cases hneighbours : neighbours r.holds args with
  | ok t =>
    refine ⟨t, chain_eq_of_neighbours hlength hbool hneighbours, ?_⟩
    rw [← neighbours_holds_eq_true_iff hr, hneighbours]
    simp
  | error fault => exact absurd ((exists_neighbours_holds_eq_error_iff hr).1 ⟨fault, hneighbours⟩) h

end WithoutBooleans

/-! ### Linearly ordered values -/

section Ranks

variable {α : Type} [LinearOrder α] {R : Value → α → Prop} {xs : List α}

/-- Values are compared like the elements of an ordered type that they stand for. -/
def Ranks (R : Value → α → Prop) : Prop :=
  ∀ a b x y, R a x → R b y → ∃ o, a.compare b = .ordered o ∧ o.Compares x y

theorem Ranks.related_iff (hR : Ranks R) {x y : α} (ha : R a x) (hb : R b y) :
    r.Related a b ↔ r.Orders x y := by
  obtain ⟨o, hcompare, ho⟩ := hR a b x y ha hb
  rw [← admits_iff ho]
  simp [Related, hcompare]

theorem Ranks.isChain_iff (hR : Ranks R) (h : List.Forall₂ R args xs) :
    args.IsChain r.Related ↔ xs.IsChain r.Orders := by
  induction h with
  | nil => simp
  | @cons a x args xs hax h ih =>
    cases h with
    | nil => simp
    | cons hby h => rw [List.isChain_cons_cons, List.isChain_cons_cons, hR.related_iff hax hby, ih]

theorem Ranks.not_incomparable (hR : Ranks R) {x y : α} (ha : R a x) (hb : R b y) :
    ¬ Incomparable a b := by
  obtain ⟨o, hcompare, -⟩ := hR a b x y ha hb
  rintro ⟨left, right, h⟩
  rw [hcompare] at h
  cases h

theorem Ranks.not_meets (hR : Ranks R) (h : List.Forall₂ R args xs) : ¬ r.Meets args := by
  induction h with
  | nil => exact not_reaches_of_short nofun
  | @cons a x args xs hax h ih =>
    cases h with
    | nil => exact not_reaches_of_short nofun
    | cons hby h =>
      rw [Meets, reaches_cons_cons]
      rintro (hab | ⟨-, hrest⟩)
      · exact hR.not_incomparable hax hby hab
      · exact ih hrest

/-- A pair cannot both be incomparable and satisfy the relation. -/
theorem Meets.not_isChain (h : r.Meets args) : ¬ args.IsChain r.Related := by
  obtain ⟨before, a, b, after, rfl, -, left, right, hab⟩ := h
  intro hchain
  obtain ⟨o, ho, -⟩ := (List.isChain_cons_cons.1 (List.isChain_append.1 hchain).2.1).1
  rw [hab] at ho
  cases ho

/-- The comparison of values with a place in a linear order decides whether they are sorted. -/
theorem Ranks.exists_chain_eq_ok (hR : Ranks R) (hr : r.isOrder = true)
    (hlength : 2 ≤ args.length) (hbool : ∀ a ∈ args, a.isBool = false)
    (h : List.Forall₂ R args xs) :
    ∃ t, r.chain args = .ok (.bool t) ∧ (t = true ↔ xs.Pairwise r.Orders) := by
  obtain ⟨t, ht, hiff⟩ := Relation.exists_chain_eq_ok hlength hbool hr (hR.not_meets h)
  exact ⟨t, ht, hiff.trans ((hR.isChain_iff h).trans (isChain_orders_iff hr))⟩

theorem ranks_rational : Ranks fun a (p : ℚ) => a.rational? = some p :=
  fun _ _ p q ha hb => ⟨cmp p q, Value.compare_of_rational? ha hb, cmp_compares p q⟩

theorem ranks_text : Ranks fun a (t : Text) => a = .text t := by
  rintro _ _ s t rfl rfl
  exact ⟨List.compareLex compare s t, rfl, Text.compares_compareLex s t⟩

end Ranks

end Relation

/-- A primitive of order finds out whether numbers are sorted by their exact values, and whether
texts are sorted by code points: it is true exactly if all earlier arguments are in the relation to
all later ones. For any arguments without a boolean among them, it is true exactly if all neighbours
satisfy the relation, and it fails exactly if it meets an incomparable pair after pairs that satisfy
the relation. Then the error is one of types, if the arguments have an encoding. -/
theorem order_sorted {r : Relation} (hr : r.isOrder = true) (limits : Limits) {args : List Value}
    (hlength : 2 ≤ args.length) (s : State) :
    (∀ qs : List ℚ, args.map Value.rational? = qs.map some →
      ∃ t, applyValue (engine limits) (.builtin r.symbol) args s = .ok (.bool t) s ∧
        (t = true ↔ qs.Pairwise r.Orders)) ∧
    (∀ ts : List Text, args = ts.map .text →
      ∃ t, applyValue (engine limits) (.builtin r.symbol) args s = .ok (.bool t) s ∧
        (t = true ↔ ts.Pairwise r.Orders)) ∧
    ((∀ a ∈ args, a.isBool = false) →
      (applyValue (engine limits) (.builtin r.symbol) args s = .ok (.bool true) s ↔
        args.IsChain r.Related) ∧
      (applyValue (engine limits) (.builtin r.symbol) args s = .ok (.bool false) s ↔
        ¬ args.IsChain r.Related ∧ ¬ r.Meets args) ∧
      ((∃ e, applyValue (engine limits) (.builtin r.symbol) args s = .error e s) ↔
        r.Meets args) ∧
      (r.Meets args →
        Refuses .type (.list args) (applyValue (engine limits) (.builtin r.symbol) args))) := by
  rw [Relation.applyValue_symbol]
  refine ⟨fun qs hqs => ?_, fun ts hts => ?_, fun hbool => ?_⟩
  · have hrank : List.Forall₂ (fun a (p : ℚ) => a.rational? = some p) args qs := by
      have heq : List.Forall₂ Eq (args.map Value.rational?) (qs.map some) := by
        rwa [List.forall₂_eq_eq_eq]
      simpa only [List.forall₂_map_left_iff, List.forall₂_map_right_iff] using heq
    have hbool : ∀ a ∈ args, a.isBool = false := by
      intro a ha
      obtain ⟨p, -, hp⟩ := List.mem_map.1 (hqs ▸ List.mem_map_of_mem ha)
      exact Value.isBool_of_rational? hp.symm
    obtain ⟨t, ht, hiff⟩ := Relation.ranks_rational.exists_chain_eq_ok hr hlength hbool hrank
    exact ⟨t, ofExcept_eq_ok_iff.2 ⟨ht, rfl⟩, hiff⟩
  · subst hts
    have hrank : List.Forall₂ (fun a t => a = Value.text t) (ts.map Value.text) ts := by
      rw [List.forall₂_map_left_iff]
      exact List.forall₂_same.2 fun _ _ => rfl
    have hbool : ∀ a ∈ ts.map Value.text, a.isBool = false :=
      List.forall_mem_map.2 fun _ _ => rfl
    obtain ⟨t, ht, hiff⟩ := Relation.ranks_text.exists_chain_eq_ok hr hlength hbool hrank
    exact ⟨t, ofExcept_eq_ok_iff.2 ⟨ht, rfl⟩, hiff⟩
  · by_cases hmeets : r.Meets args
    · have hrefused := (Relation.refused_chain_of_meets hlength hbool hr hmeets).refuses
      obtain ⟨e, he, -⟩ := hrefused s
      simp [he, hmeets, hmeets.not_isChain, hrefused]
    · obtain ⟨t, ht, hiff⟩ := Relation.exists_chain_eq_ok hlength hbool hr hmeets
      have hrun : Run.ofExcept (r.chain args) s = .ok (.bool t) s := ofExcept_eq_ok_iff.2 ⟨ht, rfl⟩
      rw [← hiff]
      simp [hrun, hmeets]

/-- Next to `2 ^ 53`, integers are compared with floating point numbers by their exact values. The
pair of a text and a number is reached behind a pair that satisfies the relation. -/
theorem order_sorted_mixedNumbers :
    let power : Value := .float (.ofInt (2 ^ 53))
    let args : List Value := [power, .int (2 ^ 53 + 1), .int (2 ^ 60)]
    let mixed : List Value := [power, .int (2 ^ 53 + 1), .word "x"]
    let less := applyValue (engine ⟨9, 9⟩) (.builtin Relation.less.symbol)
    Relation.less.isOrder = true ∧ 2 ≤ args.length ∧
      args.map Value.rational? = [2 ^ 53, 2 ^ 53 + 1, 2 ^ 60].map some ∧
      less args .empty = .ok (.bool true) .empty ∧
      Relation.less.Meets mixed ∧ Refuses .type (.list mixed) (less mixed) := by
  intro power args mixed less
  let x : Finite64 := ⟨false, 2 ^ 52, 1, by decide, by decide, by decide, .inl le_rfl⟩
  have hpower : power = .float (.finite x) := congrArg Value.float (by decide +kernel)
  have hx : x.value = 2 ^ 53 := by norm_num [x, Finite64.value, Finite64.magnitude]
  have hexact : args.map Value.rational? = [2 ^ 53, 2 ^ 53 + 1, 2 ^ 60].map some := by
    simp only [args, hpower, List.map_cons, List.map_nil, Value.rational?, hx]
    norm_num
  obtain ⟨hnumbers, -, -⟩ := @order_sorted .less rfl ⟨9, 9⟩ args (by decide) .empty
  obtain ⟨t, ht, hiff⟩ := hnumbers _ hexact
  obtain rfl : t = true := hiff.2 (by norm_num [Relation.Orders])
  obtain ⟨-, -, hmixed⟩ := @order_sorted .less rfl ⟨9, 9⟩ mixed (by decide) .empty
  have hmeets : Relation.less.Meets mixed :=
    ⟨[power], .int (2 ^ 53 + 1), .word "x", [], rfl,
      List.isChain_cons_cons.2 ⟨⟨.lt, by decide +kernel, rfl⟩, List.isChain_singleton _⟩,
      _, _, rfl⟩
  have hbool : ∀ a ∈ mixed, a.isBool = false :=
    List.forall_mem_cons.2 ⟨rfl, List.forall_mem_cons.2 ⟨rfl, List.forall_mem_singleton.2 rfl⟩⟩
  exact ⟨rfl, by decide, hexact, ht, hmeets, (hmixed hbool).2.2.2 hmeets⟩

/-- A comparison with an incomparable pair that fails with an error of arithmetic instead of one of
types, since the number has no text. -/
theorem order_longNumeral :
    let args : List Value := [.tooLong, .word "x"]
    let less := applyValue (engine ⟨9, 9⟩) (.builtin Relation.less.symbol)
    Relation.less.Meets args ∧ (∃ e, less args .empty = .error e .empty ∧ e.kind = .arithmetic) ∧
      ¬ ∀ args : List Value, 2 ≤ args.length → (∀ a ∈ args, a.isBool = false) →
        Relation.less.Meets args → ∃ e, less args .empty = .error e .empty ∧ e.kind = .type := by
  intro args less
  have hmeets : Relation.less.Meets args :=
    ⟨[], .tooLong, .word "x", [], rfl, List.isChain_singleton _, _, _, rfl⟩
  have hbool : ∀ a ∈ args, a.isBool = false :=
    List.forall_mem_cons.2 ⟨rfl, List.forall_mem_singleton.2 rfl⟩
  have hlong : ¬ (Value.list args).Everywhere Value.HasNumeral := fun h =>
    Value.not_everywhere_tooLong ((Value.everywhere_list.1 h).2 _ List.mem_cons_self)
  have hrefused : Refuses .type (.list args) (less args) := by
    have hrun : less args = Run.ofExcept (Relation.less.chain args) :=
      Relation.applyValue_symbol ⟨9, 9⟩ .less args
    rw [hrun]
    exact (Relation.refused_chain_of_meets le_rfl hbool rfl hmeets).refuses
  refine ⟨hmeets, ?_, fun hall => ?_⟩
  · obtain ⟨e, he, -⟩ := hrefused .empty
    exact ⟨e, he, hrefused.kind_eq_arithmetic hlong he⟩
  · refine Exists.elim (hall args le_rfl hbool hmeets) fun e h => ?_
    have hkind : e.kind = .arithmetic := hrefused.kind_eq_arithmetic hlong h.1
    rw [h.2] at hkind
    cases hkind

end JsonLisp
