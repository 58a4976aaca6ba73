import ModuleSurface.Command.Work
import ModuleSurface.Proofs.Exchange.Canonical
import ModuleSurface.Proofs.Json.Reads
import ModuleSurface.Proofs.Output.Rewrite

/-!
# Format — formatting a document and putting the text in its place

A formatted document stands for the module that it stood for before, and formatting it again does
nothing.  What it was formatted to on the way there makes no difference, and documents are
formatted to the same text exactly if they stand for the same module (`Document.format_write`).
-/

namespace ModuleSurface

open FileTree (Rewritten Same)

/-- A document is formatted, and its text is put in its place. -/
structure Reformats (tree : FileTree) (path : String) (pretty : Bool) (formatting : Formatting)
    (result : WriteResult) (after : FileTree) : Prop where
  format : (Document.format tree path pretty).value = .ok formatting
  write : (Output.write false tree path formatting.canonical).value = (.ok result, after)

namespace Document

variable {tree : FileTree} {path : String} {document : Document}

def canonical (document : Document) (pretty : Bool) : String :=
  (Exchange.canonicalText (layoutOf pretty) document.module).value

theorem moduleOfText_of_load (h : (load tree path).value = .ok document) :
    Exchange.moduleOfText document.text = .ok document.module := by
  rw [← Exchange.decode_value]
  exact (load_eq_ok_iff.mp h).2

theorem format_of_load (h : (load tree path).value = .ok document) (pretty : Bool) :
    (format tree path pretty).value = .ok ⟨document.text, document.canonical pretty⟩ := by
  rw [format, Logged.bind_value, fetch, Logged.bind_value, h]
  rfl

/-- The file of a document has the text that it is formatted to, which stands for the same
module. -/
theorem load_of_rewritten {after : FileTree} (h : (load tree path).value = .ok document)
    (pretty : Bool) (hafter : Rewritten path (document.canonical pretty) tree after) :
    (load after path).value = .ok ⟨document.canonical pretty, document.module⟩ := by
  refine load_eq_ok_iff.mpr ⟨hafter.readText, ?_⟩
  rw [Exchange.decode_value]
  exact Exchange.moduleOfText_canonicalText_of_decoded _ (moduleOfText_of_load h)

theorem exists_reformats (hclosed : tree.IsClosed) (h : (load tree path).value = .ok document)
    (pretty : Bool) :
    ∃ result after, Reformats tree path pretty ⟨document.text, document.canonical pretty⟩ result
        after ∧
      Rewritten path (document.canonical pretty) tree after ∧
      (document.text = document.canonical pretty ↔ result = .unchanged path) := by
  obtain ⟨after, hwrite, hrewritten⟩ :=
    Output.write_of_readText hclosed (load_eq_ok_iff.mp h).1 (document.canonical pretty)
  refine ⟨_, after, ⟨format_of_load h pretty, hwrite⟩, hrewritten, ?_⟩
  split <;> simp [*]

/-- Formatting a document and putting the text in its place keeps the module.  After that the
document is as it is to be, and is left alone; it was so before exactly if it was left alone the
first time.  Formatting it otherwise before makes no difference, and any other document is formatted
to the same text exactly if it stands for the same module. -/
theorem format_write (hclosed : tree.IsClosed) (h : (load tree path).value = .ok document)
    (pretty : Bool) :
    ∃ formatting result after, Reformats tree path pretty formatting result after ∧
      (load after path).value = .ok ⟨formatting.canonical, document.module⟩ ∧
      (∃ again, Reformats after path pretty again (.unchanged path) after ∧
        again.isCanonical = true) ∧
      (formatting.isCanonical = true ↔ result = .unchanged path) ∧
      (∀ other, ∃ first firstResult between second secondResult last,
        Reformats tree path other first firstResult between ∧
          Reformats between path pretty second secondResult last ∧
          last.readText path = after.readText path ∧ Same last after) ∧
      ∀ text module, (Exchange.decode text).value = .ok module →
        ((Exchange.canonicalText (layoutOf pretty) module).value = formatting.canonical ↔
          module = document.module) := by
  obtain ⟨result, after, hreformats, hafter, hunchanged⟩ := exists_reformats hclosed h pretty
  have hagain := load_of_rewritten h pretty hafter
  refine ⟨_, result, after, hreformats, hagain, ?_, ?_, ?_, ?_⟩
  · exact ⟨_, ⟨format_of_load hagain pretty, Output.write_of_same hafter.readText⟩,
      beq_self_eq_true _⟩
  · rw [← hunchanged]
    exact beq_iff_eq
  · -- what is written in between stands for the same module, so the last text is the same
    intro other
    obtain ⟨firstResult, between, hfirst, hbetween, -⟩ := exists_reformats hclosed h other
    obtain ⟨secondResult, last, hsecond, hlast, -⟩ :=
      exists_reformats hbetween.isClosed (load_of_rewritten h other hbetween) pretty
    exact ⟨_, _, _, _, _, _, hfirst, hsecond, hlast.readText.trans hafter.readText.symm,
      hbetween.same hlast hafter⟩
  · intro text module hdecode
    rw [Exchange.decode_value] at hdecode
    exact Exchange.canonicalText_eq_iff _ hdecode (moduleOfText_of_load h)

/-- A document with members in another order and members that are no fields, in the module and in a
symbol, and a blank. -/
def looseSample : Document where
  text := "\x7b\"variables\":[[\"SPAN\",\"variable\",\"\",\"int\"]],\"functions\":[" ++
    "\x7b\"sig\":\"()\",\"x\":[],\"name\":\"fold\",\"doc\":\"\\u0041\",\"type\":\"function\"\x7d" ++
    "],\"x\":0, \"name\":\"m\"\x7d"
  module := ⟨"m", [⟨"fold", .function, "A", "()", by decide⟩],
    [⟨"SPAN", .variable, "", "int", by decide⟩]⟩

def tidySample : String :=
  "\x7b\"name\":\"m\",\"functions\":[" ++
    "\x7b\"name\":\"fold\",\"type\":\"function\",\"doc\":\"A\",\"sig\":\"()\"\x7d]," ++
    "\"variables\":[" ++
    "\x7b\"name\":\"SPAN\",\"type\":\"variable\",\"doc\":\"\",\"sig\":\"int\"\x7d]\x7d\n"

theorem load_looseSample :
    (load (.ofFile "m.json" looseSample.text) "m.json").value = .ok looseSample := by
  have hmodule : Exchange.moduleOfText looseSample.text = .ok looseSample.module :=
    Json.toOption_eq_some_iff.mp (by decide +kernel)
  refine load_eq_ok_iff.mpr ⟨FileTree.readText_of_resolve (by rfl) (by rfl), ?_⟩
  rw [Exchange.decode_value, hmodule]

theorem format_write_looseSample :
    (load (.ofFile "m.json" looseSample.text) "m.json").value = .ok looseSample ∧
      ∃ formatting result after,
        Reformats (.ofFile "m.json" looseSample.text) "m.json" false formatting result after ∧
        formatting.canonical = tidySample ∧
        (load after "m.json").value = .ok ⟨tidySample, looseSample.module⟩ := by
  obtain ⟨formatting, result, after, hreformats, hagain, -, -, -, hcanonical⟩ :=
    format_write (FileTree.isClosed_ofFile "m.json" looseSample.text) load_looseSample false
  have htidy : formatting.canonical = tidySample := by
    rw [← (hcanonical _ _ (load_eq_ok_iff.mp load_looseSample).2).mpr rfl]
    decide +kernel
  rw [htidy] at hagain
  exact ⟨load_looseSample, formatting, result, after, hreformats, htidy, hagain⟩

end Document

end ModuleSurface
