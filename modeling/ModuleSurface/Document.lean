import ModuleSurface.Event
import ModuleSurface.Exchange.Decode
import ModuleSurface.FileTree.Basic

/-!
# Document — modules from files of the exchange format
-/

namespace ModuleSurface

/-- A file together with the module that its text stands for. -/
structure Document where
  text : String
  module : Module
  deriving DecidableEq, Repr

inductive LoadFault
  | notFound (path : String)
  | unreadable (path : String) (fault : FileFault)
  | invalid (path : String) (fault : Exchange.DecodeFault)
  deriving DecidableEq, Repr

def LoadFault.message : LoadFault → String
  | notFound path => s!"File not found: {path}"
  | unreadable path fault => s!"Failed to read {path}: {fault.message}"
  | invalid path fault => s!"Invalid IR in {path}: invalid IR document: {fault.message}"

namespace Document

def load (tree : FileTree) (path : String) : Logged (Except LoadFault Document) :=
  if !tree.pathExists path then pure (.error (.notFound path))
  else
    match tree.readText path with
    | .error fault => pure (.error (.unreadable path fault))
    | .ok text => do
        match ← Exchange.decode text with
        | .error fault => return .error (.invalid path fault)
        | .ok module =>
            Logged.tell (.documentLoaded path module.name)
            return .ok ⟨text, module⟩

theorem load_eq_ok_iff {tree : FileTree} {path : String} {document : Document} :
    (load tree path).value = .ok document ↔
      tree.readText path = .ok document.text ∧
        (Exchange.decode document.text).value = .ok document.module := by
  unfold load
  cases hread : tree.readText path with
  | error fault =>
    split <;> simp
  | ok text =>
    have hexists : tree.pathExists path = true := by
      unfold FileTree.readText at hread
      unfold FileTree.pathExists
      cases hresolve : tree.resolve path with
      | error fault =>
        rw [hresolve] at hread
        contradiction
      | ok location => rfl
    simp only [hexists, Bool.not_true, if_neg Bool.false_ne_true, Logged.bind_value,
      Except.ok.injEq]
    constructor
    · intro h
      cases hdecode : (Exchange.decode text).value with
      | error fault =>
        rw [hdecode] at h
        contradiction
      | ok module =>
        rw [hdecode] at h
        cases h
        exact ⟨rfl, hdecode⟩
    · rintro ⟨rfl, hdecode⟩
      rw [hdecode]
      rfl

end Document

end ModuleSurface
