import JsonLisp.Proofs.Except
import JsonLisp.Proofs.Simulation.Operations

/-!
# Primitives on related values

Related arguments have related results, whether they are numbers, texts or lists, and the same
errors.

## Main statements

* `Simulation.results_fold`: related results of arithmetic.
* `Simulation.results_expandBindings`: related expansions of parallel bindings.
* `Simulation.runs_primitive`: related outcomes of each primitive.
-/

namespace JsonLisp

open List (Forall₂)

/-- Numbers are combined to a number. -/
theorem isSome_number?_combineNumbers {op : Operator} {m n : Number} {v : Value}
    (h : op.combineNumbers m n = .ok v) : v.number?.isSome = true := by
  have hfloats {m n : Number}
      (h : (m.toFloat >>= fun x => n.toFloat >>= fun y => op.combineFloats x y) = .ok v) :
      v.number?.isSome = true := by
    obtain ⟨x, -, h⟩ := exists_of_bind_eq_ok h
    obtain ⟨y, -, h⟩ := exists_of_bind_eq_ok h
    unfold Operator.combineFloats at h
    grind [Value.number?]
  cases m with
  | float x => cases n <;> exact hfloats h
  | int m =>
    cases n with
    | float y => exact hfloats h
    | int n =>
      unfold Operator.combineNumbers Operator.combineInts Operator.divideInts at h
      grind [Value.number?]

namespace Simulation

variable {W : Type} [Preorder W] {S : Simulation W} {w : W} {α : Type}

/-! ### Arithmetic -/

/-- Operands on the way through a fold: related values, or the same number, which may be infinite or
no number for as long as the fold lasts. -/
def Operands (S : Simulation W) (w : W) (a b : Value) : Prop :=
  S.Val w a b ∨ ∃ x, a = .float x ∧ b = .float x

theorem Operands.similar {a b : Value} (h : S.Operands w a b) :
    Value.Similar (S.Val w) (S.Env w) a b := by
  obtain h | ⟨x, rfl, rfl⟩ := h
  · exact S.val_similar h
  · exact .float x

theorem Operands.val {a b : Value} (h : S.Operands w a b)
    (hfinite : Operator.isNotFinite a = false) : S.Val w a b := by
  obtain h | ⟨x, rfl, rfl⟩ := h
  · exact h
  · exact S.val_float w x (by simpa [Operator.isNotFinite] using hfinite)

theorem agree_copies {R : Value → Value → Prop} {xs ys : List Value} (h : Forall₂ R xs ys)
    (count : Int) : Agree (Forall₂ R) (Operator.copies xs count) (Operator.copies ys count) := by
  have hempty : xs.isEmpty = ys.isEmpty := by cases h <;> rfl
  unfold Operator.copies
  rw [hempty, h.length_eq]
  split
  · exact .error _
  · split
    · exact .ok .nil
    · split
      · exact .error _
      · refine .ok ?_
        induction count.toNat with
        | zero => exact .nil
        | succ n ih => exact List.rel_append h ih

theorem agree_number {x : Except OperationFault Value}
    (h : ∀ v, x = .ok v → v.number?.isSome = true) : Agree (S.Operands w) x x := by
  cases x with
  | error fault => exact .error fault
  | ok v =>
    refine .ok ?_
    have hv := h v rfl
    cases v with
    | int n => exact .inl (S.val_int w n)
    | float x => exact .inr ⟨x, rfl, rfl⟩
    | null | bool | text | builtin | list | map | closure => cases hv

theorem agree_combine (op : Operator) {a a' b b' : Value} (ha : S.Operands w a a')
    (hb : S.Operands w b b') : Agree (S.Operands w) (op.combine a b) (op.combine a' b') := by
  have hcopies {xs ys : List Value} (n : Int) (h : Forall₂ (S.Val w) xs ys) :
      Agree (S.Operands w) (return .list (← Operator.copies xs n))
        (return .list (← Operator.copies ys n)) :=
    (agree_copies h n).bind fun hlist => .ok (.inl (S.val_list hlist))
  have htexts (t : Text) (n : Int) : Agree (S.Operands w)
      (return .text (← Operator.copies t n)) (return .text (← Operator.copies t n)) := by
    cases Operator.copies t n with
    | error fault => exact .error fault
    | ok t => exact .ok (.inl (S.val_text w t))
  unfold Operator.combine
  rw [← ha.similar.number?_eq, ← hb.similar.number?_eq]
  split
  · exact agree_number fun v => isSome_number?_combineNumbers
  · cases op with
    | add =>
      cases ha.similar <;> cases hb.similar <;> first
        | exact .error _
        | exact .ok (.inl (S.val_text w _))
        | exact .ok (.inl (S.val_list (List.rel_append ‹_› ‹_›)))
    | mul =>
      cases ha.similar <;> cases hb.similar <;> first
        | exact .error _
        | exact htexts _ _
        | exact hcopies _ ‹_›
    | sub | div => cases ha.similar <;> cases hb.similar <;> exact .error _

theorem agree_foldlM (op : Operator) {xs xs' : List Value} (h : Forall₂ (S.Val w) xs xs')
    {a a' : Value} (ha : S.Operands w a a') :
    Agree (S.Operands w) (xs.foldlM op.combine a) (xs'.foldlM op.combine a') := by
  induction h generalizing a a' with
  | nil => exact .ok ha
  | cons hx _ ih => exact (agree_combine op ha (.inl hx)).bind fun hb => ih hb

theorem results_unsupported (op : Operator) {xs xs' : List Value}
    (h : Forall₂ (S.Val w) xs xs') :
    S.Results (S.Val w) (op.unsupported xs) (op.unsupported xs') :=
  results_encoded (S.val_list h) (.unsupportedOperands op.symbol) fun _ => rfl

theorem results_errorOf (op : Operator) {xs xs' : List Value} (h : Forall₂ (S.Val w) xs xs')
    (fault : OperationFault) :
    S.Results (S.Val w) (op.errorOf xs fault) (op.errorOf xs' fault) := by
  refine results_reporting fault ?_
  cases fault with
  | clash => exact results_unsupported op h
  | zeroDivision | outOfRange => exact results_foreseen rfl

theorem results_fold (op : Operator) {xs xs' : List Value} (h : Forall₂ (S.Val w) xs xs') :
    S.Results (S.Val w) (op.fold xs) (op.fold xs') := by
  have hbool := any_isBool_eq h
  unfold Operator.fold
  cases h with
  | nil => exact .ok (S.val_null w)
  | @cons x x' rest rest' hx hrest =>
    have hfold := agree_foldlM op hrest (.inl hx)
    dsimp only
    rw [← hbool]
    split
    · exact results_unsupported op (.cons hx hrest)
    · generalize rest.foldlM op.combine x = result at hfold
      generalize rest'.foldlM op.combine x' = result' at hfold
      cases hfold with
      | error fault => exact results_errorOf op (.cons hx hrest) fault
      | ok hresult =>
        dsimp only
        rw [← hresult.similar.isNotFinite_eq]
        split
        · exact results_foreseen rfl
        · rename_i hfinite
          exact .ok (hresult.val (by simpa using hfinite))

/-! ### Lists and parallel bindings -/

theorem list?_rel {xs xs' : List Value} (h : Forall₂ (S.Val w) xs xs') :
    Option.Rel (Forall₂ (Forall₂ (S.Val w))) (xs.mapM Value.list?) (xs'.mapM Value.list?) := by
  induction h with
  | nil => exact .some .nil
  | @cons x x' xs xs' hx _ ih =>
    rw [List.mapM_cons, List.mapM_cons]
    cases S.val_similar hx with
    | list hitems =>
      generalize xs.mapM Value.list? = lists at ih
      generalize xs'.mapM Value.list? = lists' at ih
      cases ih with
      | none => exact .none
      | some hlists => exact .some (.cons hitems hlists)
    | null | bool | int | float | text | builtin | map | closure => exact .none

theorem results_demandList {R : α → α → Prop} (what : Demanded) {a b : Value}
    (h : S.Val w a b) :
    S.Results R (Primitive.demandList what a) (Primitive.demandList what b) :=
  results_encoded h (.demanded what) fun _ => rfl

theorem results_concatenate {xs xs' : List Value} (h : Forall₂ (S.Val w) xs xs') :
    S.Results (S.Val w) (Primitive.concatenate xs) (Primitive.concatenate xs') := by
  have hlists := list?_rel h
  unfold Primitive.concatenate
  generalize xs.mapM Value.list? = lists at hlists
  generalize xs'.mapM Value.list? = lists' at hlists
  cases hlists with
  | none => exact results_demandList .appendArguments (S.val_list h)
  | some hlists =>
    refine .ok (S.val_list ?_)
    induction hlists with
    | nil => exact .nil
    | cons hitems _ ih => exact List.rel_append hitems ih

theorem results_addLast {xs xs' : List Value} (h : Forall₂ (S.Val w) xs xs') :
    S.Results (S.Val w) (Primitive.addLast xs) (Primitive.addLast xs') := by
  cases h with
  | nil => exact results_foreseen rfl
  | cons hfirst hrest =>
    cases hrest with
    | nil => exact results_foreseen rfl
    | cons hitem hitems =>
      cases S.val_similar hfirst with
      | list hlist => exact .ok (S.val_list (List.rel_append hlist (.cons hitem hitems)))
      | null | bool | int | float | text | builtin | map | closure =>
        exact results_demandList .conjFirst hfirst

theorem results_addFirst {xs xs' : List Value} (h : Forall₂ (S.Val w) xs xs') :
    S.Results (S.Val w) (Primitive.addFirst xs) (Primitive.addFirst xs') := by
  cases h with
  | nil => exact results_foreseen rfl
  | cons hitem hrest =>
    cases hrest with
    | nil => exact results_foreseen rfl
    | cons htail hmore =>
      cases hmore with
      | cons => exact results_foreseen rfl
      | nil =>
        cases S.val_similar htail with
        | list hlist => exact .ok (S.val_list (.cons hitem hlist))
        | null | bool | int | float | text | builtin | map | closure =>
          exact results_demandList .consSecond htail

/-- Pairs of related values. -/
def PairsRel (S : Simulation W) (w : W) : List (Value × Value) → List (Value × Value) → Prop :=
  Forall₂ fun p q => S.Val w p.1 q.1 ∧ S.Val w p.2 q.2

theorem pairs?_rel : ∀ xs xs' : List Value, Forall₂ (S.Val w) xs xs' →
    Option.Rel (S.PairsRel w) (Primitive.pairs? xs) (Primitive.pairs? xs')
  | [], [], .nil => .some .nil
  | [_], [_], .cons _ .nil => .none
  | _ :: _ :: xs, _ :: _ :: ys, .cons hx (.cons hy hrest) => by
    have ih := pairs?_rel xs ys hrest
    unfold Primitive.pairs?
    generalize Primitive.pairs? xs = pairs at ih
    generalize Primitive.pairs? ys = pairs' at ih
    cases ih with
    | none => exact .none
    | some hpairs => exact .some (.cons ⟨hx, hy⟩ hpairs)

theorem val_bindingCall {pairs pairs' : List (Value × Value)} {body body' : List Value}
    (hpairs : S.PairsRel w pairs pairs') (hbody : Forall₂ (S.Val w) body body') :
    S.Val w (Primitive.bindingCall pairs body) (Primitive.bindingCall pairs' body') := by
  have hnames : Forall₂ (S.Val w) (pairs.map (·.1)) (pairs'.map (·.1)) :=
    List.rel_map (fun _ _ h => h.1) hpairs
  have hvalues : Forall₂ (S.Val w) (pairs.map (·.2)) (pairs'.map (·.2)) :=
    List.rel_map (fun _ _ h => h.2) hpairs
  exact S.val_list (.cons (S.val_list (.cons (S.val_text w _)
    (.cons (S.val_list hnames) hbody))) hvalues)

theorem results_expandBindings {xs xs' : List Value} (h : Forall₂ (S.Val w) xs xs') :
    S.Results (S.Val w) (Primitive.expandBindings xs) (Primitive.expandBindings xs') := by
  cases h with
  | nil => exact results_foreseen rfl
  | cons hfirst hbody =>
    cases S.val_similar hfirst with
    | @list bindings bindings' hbindings =>
      have hpairs := pairs?_rel bindings bindings' hbindings
      rw [Primitive.expandBindings, Primitive.expandBindings]
      generalize Primitive.pairs? bindings = pairs at hpairs
      generalize Primitive.pairs? bindings' = pairs' at hpairs
      cases hpairs with
      | none => exact results_displayed hfirst .unpairedBindings fun _ => rfl
      | some hpairs => exact .ok (val_bindingCall hpairs hbody)
    | null | bool | int | float | text | builtin | map | closure =>
      exact results_displayed hfirst (.demanded .bindingList) fun _ => rfl

/-! ### Primitives -/

theorem runs_print {a b : Value} (h : S.Val w a b) :
    S.Runs w (fun _ => Eq) (Run.print a.wire) (Run.print b.wire) := by
  intro s t hst
  rw [print_eq, print_eq, ← S.val_wire h]
  cases a.wire.write with
  | ok text => exact .ok le_rfl rfl (S.st_print h hst)
  | error fault => exact .error le_rfl (S.possible_foreseen rfl) hst

theorem runs_printAll {xs xs' : List Value} (h : Forall₂ (S.Val w) xs xs') :
    S.Runs w (fun _ => Eq) (Primitive.printAll xs) (Primitive.printAll xs') := by
  induction xs generalizing w xs' with
  | nil =>
    cases h
    exact runs_pure rfl
  | cons x xs ih =>
    cases h with
    | cons hx hxs => exact runs_bind (runs_print hx) fun hle _ => ih (vals_mono hle hxs)

theorem val_passedOn {xs xs' : List Value} (h : Forall₂ (S.Val w) xs xs') :
    S.Val w (Primitive.passedOn xs) (Primitive.passedOn xs') := by
  cases h with
  | nil => exact S.val_null w
  | cons hx hxs =>
    cases hxs with
    | nil => exact hx
    | cons hy hys => exact S.val_list (.cons hx (.cons hy hys))

theorem val_texts (names : List Text) :
    S.Val w (.list (names.map .text)) (.list (names.map .text)) := by
  refine S.val_list ?_
  induction names with
  | nil => exact .nil
  | cons name rest ih => exact .cons (S.val_text w name) ih

theorem runs_primitive (p : Primitive) {xs xs' : List Value} (h : Forall₂ (S.Val w) xs xs') :
    S.Runs w S.Val (p.run xs) (p.run xs') := by
  cases p with
  | arithmetic op => exact runs_ofExcept (results_fold op h)
  | comparison r => exact runs_ofExcept (results_chain r h)
  | list => exact runs_pure (S.val_list h)
  | print =>
    exact runs_bind (runs_printAll h) fun hle _ => runs_pure (S.val_mono hle (val_passedOn h))
  | globals =>
    intro s t hst
    change S.Outcomes w S.Val (.ok (.list (s.globals.names.map .text)) s)
      (.ok (.list (t.globals.names.map .text)) t)
    rw [← S.st_names hst]
    exact .ok le_rfl (val_texts _) hst
  | append => exact runs_ofExcept (results_concatenate h)
  | conj => exact runs_ofExcept (results_addLast h)
  | cons => exact runs_ofExcept (results_addFirst h)
  | parallelBinding => exact runs_ofExcept (results_expandBindings h)

end Simulation

end JsonLisp
