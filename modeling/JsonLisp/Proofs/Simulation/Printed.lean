import JsonLisp.Proofs.Simulation.WellFormed
import JsonLisp.Proofs.Value.Encoding

/-!
# Printed documents

What holds of the wire form of each value that a simulation relates holds of every document that is
printed. So all documents that well-formed programs print are read back from their text.

## Main definitions

* `Simulation.printing`: a simulation together with a property of the printed documents.
* `Json.Readable`: documents that are read back from their text.
-/

namespace JsonLisp

theorem Value.write_of_encode {v : Value} {t : Text} (h : v.encode = .ok t) :
    v.wire.write = .ok t := by
  unfold encode at h
  cases hwrite : v.wire.write with
  | ok u =>
    rw [hwrite] at h
    cases h
    rfl
  | error fault =>
    rw [hwrite] at h
    cases h

/-- The text of the document, if it has one, is decoded to the document. -/
def Json.Readable (d : Json) : Prop := ∀ t, d.write = .ok t → Json.decode t = .ok d

theorem Value.WellFormed.distinctKeys {v : Value} (h : v.WellFormed) :
    v.Everywhere DistinctKeys := by
  intro a ha
  have hproper : a.Proper := h a ha
  cases a with
  | map entries => exact hproper
  | null | bool | int | float | text | list | closure | builtin => trivial

theorem Value.WellFormed.readable_wire {v : Value} (h : v.WellFormed) : v.wire.Readable := by
  intro t ht
  have hnumerals := (exists_write_wire v).1 ⟨t, ht⟩
  exact Json.decode_of_write (sound_wire hnumerals h.distinctKeys) ht

namespace Simulation

variable {W : Type} [Preorder W]

/-- The simulation between states in which nothing else has been printed than documents with the
property. -/
def printing (S : Simulation W) (p : Json → Prop) (hwire : ∀ {w a b}, S.Val w a b → p a.wire) :
    Simulation W where
  __ := S
  St w s t := S.St w s t ∧ ∀ d ∈ s.printed, p d
  st_globals name h := S.st_globals name h.1
  st_names h := S.st_names h.1
  st_macros name h := S.st_macros name h.1
  st_depth h := S.st_depth h.1
  st_atDepth d h := ⟨S.st_atDepth d h.1, h.2⟩
  st_print hab h := ⟨S.st_print hab h.1, List.forall_mem_cons.2 ⟨hwire hab, h.2⟩⟩
  st_newClosure h henv hparts hvals := by
    obtain ⟨u, hle, hval, hst⟩ := S.st_newClosure h.1 henv hparts hvals
    exact ⟨u, hle, hval, hst, h.2⟩
  st_defineGlobal name h hval hfresh := ⟨S.st_defineGlobal name h.1 hval hfresh, h.2⟩
  st_defineMacro name h hval htransformer hfresh :=
    ⟨S.st_defineMacro name h.1 hval htransformer hfresh, h.2⟩

/-- Runs of well-formed values that print readable documents. -/
def readable : Simulation Unit := wellFormed.printing Json.Readable fun h => h.2.readable_wire

end Simulation

end JsonLisp
