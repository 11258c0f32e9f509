import JsonLisp.Proofs.Except
import JsonLisp.Proofs.Primitive.Refusal
import JsonLisp.Proofs.Simulation.Primitives

/-!
# Arithmetic by the primitives

An operator that folds a list of arguments can be interrupted anywhere: the result so far can take
the place of the arguments that led to it. Only the last result is examined for overflow, but an
overflow on the way stays visible, since no finite operand leads back from it.

## Main definitions

* `Operator.Supports`: the operands that an operator is made for.

## Main results

* `arithmetic_append`: the fold of a list in two parts.
* `Operator.exists_clash_iff`: all other operands are a fault of a step.
* `Operator.refused_fold_isBool`, `Operator.refused_fold_clash`: folds without a meaning.
-/

namespace JsonLisp

namespace Binary64

variable {x y : Binary64}

/-! ### Overflow -/

theorem isFinite_neg (y : Binary64) : y.neg.isFinite = y.isFinite := by
  cases y <;> rfl

theorem isFinite_add_of_left (hx : x.isFinite = false) (hy : y.isFinite = true) :
    (x.add y).isFinite = false := by
  cases x with
  | nan => rfl
  | infinity s =>
    cases y with
    | nan | infinity => cases hy
    | finite => rfl
  | finite => cases hx

theorem isFinite_sub_of_left (hx : x.isFinite = false) (hy : y.isFinite = true) :
    (x.sub y).isFinite = false :=
  isFinite_add_of_left hx ((isFinite_neg y).trans hy)

/-- Infinity times zero is not-a-number, and so is not finite either. -/
theorem isFinite_mul_of_left (hx : x.isFinite = false) (hy : y.isFinite = true) :
    (x.mul y).isFinite = false := by
  cases x with
  | nan => rfl
  | infinity s =>
    cases y with
    | nan | infinity => cases hy
    | finite y =>
      change (if y.isZero then nan 0 else infinity (s != y.negative)).isFinite = false
      split <;> rfl
  | finite => cases hx

theorem isFinite_div_of_left (hx : x.isFinite = false) (hy : y.isFinite = true) :
    (x.div y).isFinite = false := by
  cases x with
  | nan => rfl
  | infinity s =>
    cases y with
    | nan | infinity => cases hy
    | finite => rfl
  | finite => cases hx

end Binary64

namespace Operator

variable {op : Operator} {a b first u v : Value} {args rest xs ys : List Value}

/-! ### One step -/

/-- The operands that an operator is made for. Sums also join texts and lists, and products repeat
them. -/
inductive Supports : Operator → Value → Value → Prop
  | numbers (op : Operator) {a b : Value} {m n : Number} :
      a.number? = some m → b.number? = some n → Supports op a b
  | texts (s t : Text) : Supports .add (.text s) (.text t)
  | lists (xs ys : List Value) : Supports .add (.list xs) (.list ys)
  | repeated {a : Value} (n : Int) : isSequence a = true → Supports .mul a (.int n)
  | repeats (n : Int) {b : Value} : isSequence b = true → Supports .mul (.int n) b

/-- Numbers go together, even where their combination does not exist. -/
theorem combineNumbers_ne_clash (m n : Number) (c : Clash) :
    op.combineNumbers m n ≠ .error (.clash c) := by
  have htoFloat (n : Number) : n.toFloat ≠ .error (.clash c) := by
    cases n with
    | float x => nofun
    | int n =>
      unfold Number.toFloat
      dsimp only
      split <;> nofun
  have hfloats (m n : Number) :
      (m.toFloat >>= fun x => n.toFloat >>= fun y => op.combineFloats x y) ≠ .error (.clash c) := by
    intro h
    obtain h | ⟨x, -, h⟩ := error_or_of_bind_eq_error h
    · exact htoFloat m h
    · obtain h | ⟨y, -, h⟩ := error_or_of_bind_eq_error h
      · exact htoFloat n h
      · cases op with
        | add | sub | mul => cases h
        | div =>
          simp only [combineFloats] at h
          split at h <;> cases h
  cases m with
  | float x => cases n <;> exact hfloats _ _
  | int m =>
    cases n with
    | float y => exact hfloats _ _
    | int n =>
      cases op with
      | add | sub | mul => nofun
      | div =>
        change divideInts m n ≠ _
        unfold divideInts
        split
        · nofun
        · dsimp only
          split <;> nofun

theorem copies_ne_clash {α : Type} (items : List α) (count : Int) (c : Clash) :
    copies items count ≠ .error (.clash c) := by
  unfold copies
  split
  · nofun
  · split
    · nofun
    · split <;> nofun

theorem bind_copies_ne_clash {α : Type} {items : List α} {count : Int} {f : List α → Value}
    (c : Clash) : (copies items count >>= fun all => pure (f all)) ≠ .error (.clash c) := by
  intro h
  obtain h | ⟨all, -, h⟩ := error_or_of_bind_eq_error h
  · exact copies_ne_clash items count c h
  · cases h

theorem exists_clash_iff : (∃ c, op.combine a b = .error (.clash c)) ↔ ¬ op.Supports a b := by
  fun_cases combine op a b with
  | case1 op a b m n hb ha =>
    exact iff_of_false (fun ⟨c, h⟩ => combineNumbers_ne_clash m n c h)
      (not_not.2 (.numbers op ha hb))
  | case2 s t =>
    exact iff_of_false nofun (not_not.2 (.texts s t))
  | case3 xs ys =>
    exact iff_of_false nofun (not_not.2 (.lists xs ys))
  | case4 s n =>
    exact iff_of_false (fun ⟨c, h⟩ => bind_copies_ne_clash c h) (not_not.2 (.repeated n rfl))
  | case5 n s =>
    exact iff_of_false (fun ⟨c, h⟩ => bind_copies_ne_clash c h) (not_not.2 (.repeats n rfl))
  | case6 xs n =>
    exact iff_of_false (fun ⟨c, h⟩ => bind_copies_ne_clash c h) (not_not.2 (.repeated n rfl))
  | case7 n xs =>
    exact iff_of_false (fun ⟨c, h⟩ => bind_copies_ne_clash c h) (not_not.2 (.repeats n rfl))
  | case8 op a b hnumbers htexts hlists htext hofText hlist hofList =>
    refine iff_of_true ⟨op.clash a b, rfl⟩ fun h => ?_
    cases h with
    | numbers _ ha hb => exact hnumbers _ _ ha hb
    | texts s t => exact htexts s t rfl rfl rfl
    | lists xs ys => exact hlists xs ys rfl rfl rfl
    | repeated n ha =>
      cases a with
      | text s => exact htext s n rfl rfl rfl
      | list xs => exact hlist xs n rfl rfl rfl
      | null | bool | int | float | map | closure | builtin => cases ha
    | repeats n hb =>
      cases b with
      | text s => exact hofText n s rfl rfl rfl
      | list xs => exact hofList n xs rfl rfl rfl
      | null | bool | int | float | map | closure | builtin => cases hb

/-- A step combines numbers, or it makes a text or a list, and then the first operand is not a
floating point number. -/
theorem combine_cases (h : op.combine a b = .ok u) :
    (∃ m n, a.number? = some m ∧ b.number? = some n ∧ op.combineNumbers m n = .ok u) ∨
      isSequence u = true ∧ ∀ x, a ≠ .float x := by
  revert h
  fun_cases combine op a b with
  | case1 op a b m n hb ha => exact fun h => .inl ⟨m, n, ha, hb, h⟩
  | case2 | case3 =>
    rintro ⟨⟩
    exact .inr ⟨rfl, by simp⟩
  | case4 | case5 | case6 | case7 =>
    intro h
    obtain ⟨all, -, h⟩ := exists_of_bind_eq_ok h
    cases h
    exact .inr ⟨rfl, by simp⟩
  | case8 => exact nofun

/-- An integer that is converted is in the range of finite numbers. -/
theorem isFinite_of_toFloat {n : Number} {y : Binary64}
    (hn : ∀ x, n = .float x → x.isFinite = true) (h : n.toFloat = .ok y) : y.isFinite = true := by
  cases n with
  | float x =>
    cases h
    exact hn y rfl
  | int n =>
    simp only [Number.toFloat] at h
    split at h
    · cases h
      assumption
    · cases h

theorem isNotFinite_combineFloats {x y : Binary64} (hx : x.isFinite = false)
    (hy : y.isFinite = true) (h : op.combineFloats x y = .ok u) : isNotFinite u = true := by
  cases op with
  | add =>
    cases h
    simp [isNotFinite, Binary64.isFinite_add_of_left hx hy]
  | sub =>
    cases h
    simp [isNotFinite, Binary64.isFinite_sub_of_left hx hy]
  | mul =>
    cases h
    simp [isNotFinite, Binary64.isFinite_mul_of_left hx hy]
  | div =>
    simp only [combineFloats] at h
    split at h <;> cases h
    simp [isNotFinite, Binary64.isFinite_div_of_left hx hy]

/-- A step from what is not finite, with an operand that is, does not lead back. -/
theorem isNotFinite_combine (ha : isNotFinite a = true) (hb : isNotFinite b = false)
    (h : op.combine a b = .ok u) : isNotFinite u = true := by
  cases a with
  | float x =>
    have hx : x.isFinite = false := by simpa [isNotFinite] using ha
    obtain ⟨m, n, hm, hn, hstep⟩ | ⟨-, hfloat⟩ := combine_cases h
    · cases hm
      have hnfinite : ∀ y, n = .float y → y.isFinite = true := by
        rintro y rfl
        cases b <;> cases hn
        simpa [isNotFinite] using hb
      have hfloats : (n.toFloat >>= fun y => op.combineFloats x y) = .ok u := by
        cases n <;> exact hstep
      obtain ⟨y, hy, hu⟩ := exists_of_bind_eq_ok hfloats
      exact isNotFinite_combineFloats hx (isFinite_of_toFloat hnfinite hy) hu
    · exact absurd rfl (hfloat x)
  | null | bool | int | text | list | map | closure | builtin => cases ha

/-- No step makes a boolean. -/
theorem isBool_combine (h : op.combine a b = .ok u) : u.isBool = false := by
  obtain ⟨m, n, -, -, hstep⟩ | ⟨hsequence, -⟩ := combine_cases h
  · have hnumber := isSome_number?_combineNumbers hstep
    cases u <;> first | rfl | cases hnumber
  · cases u <;> first | rfl | cases hsequence

/-! ### The whole fold -/

theorem isNotFinite_foldlM (ha : isNotFinite a = true) (hys : ∀ y ∈ ys, isNotFinite y = false)
    (h : ys.foldlM op.combine a = .ok v) : isNotFinite v = true := by
  induction ys generalizing a with
  | nil =>
    cases h
    exact ha
  | cons y ys ih =>
    rw [List.forall_mem_cons] at hys
    obtain ⟨u, hu, h⟩ := exists_of_bind_eq_ok h
    exact ih (isNotFinite_combine ha hys.1 hu) hys.2 h

theorem isBool_foldlM (ha : a.isBool = false) (h : ys.foldlM op.combine a = .ok v) :
    v.isBool = false := by
  induction ys generalizing a with
  | nil =>
    cases h
    exact ha
  | cons y ys ih =>
    obtain ⟨u, hu, h⟩ := exists_of_bind_eq_ok h
    exact ih (isBool_combine hu) h

theorem foldlM_append_eq_ok_iff : (xs ++ ys).foldlM op.combine a = .ok v ↔
    ∃ u, xs.foldlM op.combine a = .ok u ∧ ys.foldlM op.combine u = .ok v := by
  rw [List.foldlM_append]
  constructor
  · exact exists_of_bind_eq_ok
  · rintro ⟨u, hu, hv⟩
    rw [hu]
    exact hv

theorem unsupported_ne_ok (args : List Value) : op.unsupported args ≠ .ok v := by
  unfold unsupported
  cases Value.encodeItems args <;> nofun

theorem errorOf_ne_ok (args : List Value) (fault : OperationFault) :
    op.errorOf args fault ≠ .ok v := by
  have hmap {x : Except Error Value} (hx : ∀ u, x ≠ .ok u) :
      x.mapError (Error.reporting fault) ≠ .ok v := by
    cases x with
    | ok u => exact absurd rfl (hx u)
    | error e => nofun
  cases fault with
  | clash c => exact hmap fun u => unsupported_ne_ok args
  | zeroDivision | outOfRange => exact hmap nofun

/-- When a fold succeeds, and with what. -/
theorem fold_cons_eq_ok_iff : op.fold (first :: rest) = .ok v ↔
    (∀ a ∈ first :: rest, a.isBool = false) ∧ rest.foldlM op.combine first = .ok v ∧
      isNotFinite v = false := by
  have hbool : (first :: rest).any Value.isBool = false ↔
      ∀ a ∈ first :: rest, a.isBool = false := by simp
  rw [← hbool]
  unfold fold
  dsimp only
  cases (first :: rest).any Value.isBool with
  | true => simp [unsupported_ne_ok]
  | false =>
    cases rest.foldlM op.combine first with
    | error fault => simp [errorOf_ne_ok]
    | ok result =>
      cases hresult : isNotFinite result with
      | true =>
        refine iff_of_false (by simp [hresult]) ?_
        rintro ⟨-, h, hv⟩
        cases h
        exact absurd hv (by simp [hresult])
      | false =>
        simp only [Bool.false_eq_true, if_false, hresult, true_and]
        constructor
        · intro h
          cases h
          exact ⟨rfl, hresult⟩
        · rintro ⟨h, -⟩
          cases h
          rfl

/-- The result of a fold can take the place of what was folded. -/
theorem fold_append_eq_ok_iff (hys : ∀ y ∈ ys, isNotFinite y = false) :
    op.fold (first :: rest ++ ys) = .ok v ↔
      ∃ u, op.fold (first :: rest) = .ok u ∧ op.fold (u :: ys) = .ok v := by
  simp only [List.cons_append, fold_cons_eq_ok_iff, foldlM_append_eq_ok_iff]
  constructor
  · rintro ⟨hbool, ⟨u, hu, hv⟩, hfinite⟩
    have hall : (∀ a ∈ first :: rest, a.isBool = false) ∧ ∀ a ∈ ys, a.isBool = false := by
      rwa [← List.cons_append, List.forall_mem_append] at hbool
    have hubool : u.isBool = false := isBool_foldlM (hall.1 first List.mem_cons_self) hu
    have hufinite : isNotFinite u = false := by
      by_contra hinfinite
      have hv' := isNotFinite_foldlM (by simpa using hinfinite) hys hv
      rw [hv'] at hfinite
      cases hfinite
    exact ⟨u, ⟨hall.1, hu, hufinite⟩, List.forall_mem_cons.2 ⟨hubool, hall.2⟩, hv, hfinite⟩
  · rintro ⟨u, ⟨hbool, hu, -⟩, hbool', hv, hfinite⟩
    refine ⟨?_, ⟨u, hu, hv⟩, hfinite⟩
    rw [← List.cons_append, List.forall_mem_append]
    exact ⟨hbool, (List.forall_mem_cons.1 hbool').2⟩

theorem applyValue_symbol (limits : Limits) (op : Operator) (args : List Value) :
    applyValue (engine limits) (.builtin op.symbol) args = Run.ofExcept (op.fold args) := by
  cases op <;> rfl

/-! ### Operands without a meaning -/

theorem refused_unsupported (op : Operator) (args : List Value) :
    Refused .type (.list args) (op.unsupported args) :=
  refused_throw (.unsupportedOperands op.symbol) (fun _ => rfl) (.list args)

theorem refused_fold_isBool (h : ∃ a ∈ args, a.isBool = true) :
    Refused .type (.list args) (op.fold args) := by
  obtain ⟨a, ha, hbool⟩ := h
  cases args with
  | nil => cases ha
  | cons first rest =>
    have hany : (first :: rest).any Value.isBool = true := List.any_eq_true.2 ⟨a, ha, hbool⟩
    unfold fold
    dsimp only
    rw [if_pos hany]
    exact refused_unsupported op _

/-- The steps up to two operands that do not go together have to succeed. -/
theorem refused_fold_clash {before after : List Value} {acc next : Value}
    (hacc : before.foldlM op.combine first = .ok acc) (hnext : ¬ op.Supports acc next) :
    Refused .type (.list (first :: before ++ next :: after))
      (op.fold (first :: before ++ next :: after)) := by
  by_cases hbool : ∃ a ∈ first :: before ++ next :: after, a.isBool = true
  · exact refused_fold_isBool hbool
  · have hany : ¬ (first :: (before ++ next :: after)).any Value.isBool = true :=
      fun h => hbool (List.any_eq_true.1 h)
    obtain ⟨c, hc⟩ := exists_clash_iff.2 hnext
    have hfold : (before ++ next :: after).foldlM op.combine first = .error (.clash c) := by
      rw [List.foldlM_append, hacc]
      change (op.combine acc next >>= fun u => after.foldlM op.combine u) = _
      rw [hc]
      rfl
    rw [List.cons_append]
    unfold fold
    dsimp only
    rw [if_neg hany, hfold]
    exact (refused_unsupported op _).reporting (.clash c)

end Operator

/-- An operator applied to a list that is not empty and then some values without infinite floating
point numbers succeeds exactly if it does in two steps, with the same result: first on the list, and
then on its result followed by the further values. If the fold of the list has left the finite
numbers, then no further values hide it. -/
theorem arithmetic_append (limits : Limits) (op : Operator) (first : Value) (rest : List Value)
    {ys : List Value} (hys : ∀ y ∈ ys, Operator.isNotFinite y = false) (s : State) :
    (∀ v t, applyValue (engine limits) (.builtin op.symbol) (first :: rest ++ ys) s = .ok v t ↔
      ∃ u s', applyValue (engine limits) (.builtin op.symbol) (first :: rest) s = .ok u s' ∧
        applyValue (engine limits) (.builtin op.symbol) (u :: ys) s' = .ok v t) ∧
    ∀ acc, rest.foldlM op.combine first = .ok acc → Operator.isNotFinite acc = true →
      ∃ e, applyValue (engine limits) (.builtin op.symbol) (first :: rest ++ ys) s =
        .error e s := by
  simp only [Operator.applyValue_symbol, ofExcept_eq_ok_iff]
  constructor
  · intro v t
    rw [Operator.fold_append_eq_ok_iff hys]
    constructor
    · rintro ⟨⟨u, hu, hv⟩, rfl⟩
      exact ⟨u, t, ⟨hu, rfl⟩, hv, rfl⟩
    · rintro ⟨u, s', ⟨hu, rfl⟩, hv, rfl⟩
      exact ⟨⟨u, hu, hv⟩, rfl⟩
  · intro acc hacc hinfinite
    cases hfold : op.fold (first :: rest ++ ys) with
    | error e => exact ⟨e, rfl⟩
    | ok v =>
      obtain ⟨u, hu, -⟩ := (Operator.fold_append_eq_ok_iff hys).1 hfold
      obtain ⟨-, hrest, hfinite⟩ := Operator.fold_cons_eq_ok_iff.1 hu
      obtain rfl : acc = u := by simpa [hacc] using hrest
      rw [hinfinite] at hfinite
      cases hfinite

/-- Products of integers and floating point numbers: a result that is reached in two steps, and an
overflow that a factor below one does not hide. -/
theorem arithmetic_append_product :
    let half : Value := .float (.ofDecimal false 5 (-1))
    let big := Binary64.ofParts false (Nat.pow 2 52) 971
    let times := applyValue (engine ⟨9, 9⟩) (.builtin Operator.mul.symbol)
    Operator.isNotFinite half = false ∧
      times ([.int 6, half] ++ [half]) .empty = .ok (.float (.ofDecimal false 15 (-1))) .empty ∧
      ∃ e, times ([.float big, .int 2] ++ [half]) .empty = .error e .empty := by
  intro half big times
  have hhalf : Operator.isNotFinite half = false := by decide +kernel
  have hys : ∀ y ∈ [half], Operator.isNotFinite y = false := List.forall_mem_singleton.2 hhalf
  refine ⟨hhalf, ?_, ?_⟩
  · refine ((arithmetic_append ⟨9, 9⟩ .mul (.int 6) [half] hys .empty).1 _ _).2
      ⟨.float (.ofInt 3), .empty, ?_, ?_⟩
    · rfl
    · rfl
  · have hinfinite : Operator.isNotFinite (.float (big.mul (.ofInt 2))) = true := by
      decide +kernel
    exact (arithmetic_append ⟨9, 9⟩ .mul (.float big) [.int 2] hys .empty).2 _ rfl hinfinite

end JsonLisp
