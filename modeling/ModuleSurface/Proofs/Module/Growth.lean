import Mathlib.Data.List.Induction
import ModuleSurface.Proofs.Exchange.Canonical

/-!
# Growth — what becomes of a module step by step

A module grows by symbols that are appended, and is replaced by what is decoded.  A step that fails
changes nothing (`GrowthStep.take_ends`).  So each partition is that of the module that was decoded
last, followed by the symbols that were appended to it since (`Growth.grown_partition`).
-/

namespace ModuleSurface

open Json (Layout)

/-! ## 1. Steps -/

inductive GrowthStep
  /-- A symbol is appended. -/
  | add (partition : Partition) (symbol : Symbol)
  /-- A symbol is made of its parts, a function or a variable of its own kind, and appended. -/
  | make (partition : Partition) (name : String) (kind : Kind) (doc sig : String)
  /-- The module is encoded and replaced by what that is decoded to. -/
  | reload (layout : Layout)
  /-- The module is replaced by what a text is decoded to. -/
  | decode (text : String)
  deriving DecidableEq, Repr

inductive GrowthFault
  | emptyName
  | undecodable (fault : Exchange.DecodeFault)
  deriving DecidableEq, Repr

theorem Module.push_push_of_ne {p q : Partition} (h : p ≠ q) (s t : Symbol) (module : Module) :
    (module.push p s).push q t = (module.push q t).push p s := by
  cases p <;> cases q <;> first | rfl | contradiction

namespace GrowthStep

def replaceBy (module : Module) (text : String) : Logged (Except GrowthFault Unit × Module) := do
  match ← Exchange.decode text with
  | .error fault => return (.error (.undecodable fault), module)
  | .ok decoded => return (.ok (), decoded)

/-- Takes a step: whether it succeeds, and the module after it. -/
def take (module : Module) : GrowthStep → Logged (Except GrowthFault Unit × Module)
  | .add partition symbol => do return (.ok (), ← module.append partition symbol)
  | .make partition name kind doc sig =>
      match Symbol.ofParts? name kind doc sig with
      | none => pure (.error .emptyName, module)
      | some symbol => do return (.ok (), ← module.append partition symbol)
  | .reload layout => do replaceBy module (← Exchange.encode layout module)
  | .decode text => replaceBy module text

def appended? : GrowthStep → Option (Partition × Symbol)
  | .add partition symbol => some (partition, symbol)
  | .make partition name kind doc sig => (Symbol.ofParts? name kind doc sig).map (partition, ·)
  | .reload _ | .decode _ => none

def decoded? (module : Module) : GrowthStep → Option String
  | .reload layout => some (Exchange.encode layout module).value
  | .decode text => some text
  | .add _ _ | .make _ _ _ _ _ => none

/-- Whether a step fails: a name is empty, or a text is no module. -/
def Fails : GrowthStep → Prop
  | .make _ name _ _ _ => name = ""
  | .decode text => ∃ fault, Exchange.moduleOfText text = .error fault
  | .add _ _ | .reload _ => False

inductive Ends (module : Module) : GrowthStep → Except GrowthFault Unit → Module → Prop
  /-- A symbol is appended. -/
  | appended {step : GrowthStep} {partition : Partition} {symbol : Symbol}
      (happended : step.appended? = some (partition, symbol)) :
      Ends module step (.ok ()) (module.push partition symbol)
  /-- The module is replaced. -/
  | replaced {step : GrowthStep} {text : String} {next : Module}
      (htext : step.decoded? module = some text)
      (hnext : Exchange.moduleOfText text = .ok next) : Ends module step (.ok ()) next
  /-- Nothing happens. -/
  | failed {step : GrowthStep} {fault : GrowthFault} (hfails : step.Fails) :
      Ends module step (.error fault) module

variable {module next : Module} {step : GrowthStep} {result : Except GrowthFault Unit}

theorem replaceBy_value (module : Module) (text : String) :
    (replaceBy module text).value = match Exchange.moduleOfText text with
      | .error fault => (.error (.undecodable fault), module)
      | .ok decoded => (.ok (), decoded) := by
  unfold replaceBy
  rw [Logged.bind_value, Exchange.decode_value]
  cases Exchange.moduleOfText text <;> rfl

/-- A reload reads the kinds of the module again. -/
theorem take_reload (layout : Layout) (module : Module) :
    (take module (.reload layout)).value = (.ok (), module.reread) := by
  rw [take, Logged.bind_value, replaceBy_value, Exchange.moduleOfText_encode]

/-- A step ends in one of these ways. -/
theorem take_ends (module : Module) (step : GrowthStep) :
    step.Ends module (step.take module).value.1 (step.take module).value.2 := by
  cases step with
  | add partition symbol => exact .appended rfl
  | make partition name kind doc sig =>
    rw [take]
    split
    · rename_i hnone
      exact .failed ((Symbol.ofParts?_eq_none_iff ..).mp hnone)
    · rename_i symbol hsome
      exact .appended (by rw [appended?, hsome]; rfl)
  | reload layout =>
    rw [take_reload]
    exact .replaced rfl (Exchange.moduleOfText_encode layout module)
  | decode text =>
    rw [take, replaceBy_value]
    cases htext : Exchange.moduleOfText text with
    | error fault => exact .failed ⟨fault, htext⟩
    | ok decoded => exact .replaced rfl htext

theorem take_of_appended {partition : Partition} {symbol : Symbol}
    (h : step.appended? = some (partition, symbol)) (module : Module) :
    (step.take module).value.2 = module.push partition symbol := by
  cases step with
  | add other member =>
    obtain ⟨rfl, rfl⟩ := Prod.mk.inj (Option.some.inj h)
    rfl
  | make other name kind doc sig =>
    obtain ⟨member, hmember, hpair⟩ := Option.map_eq_some_iff.mp h
    obtain ⟨rfl, rfl⟩ := Prod.mk.inj hpair
    rw [take, hmember]
    rfl
  | reload | decode => contradiction

theorem take_decode {text : String} (h : Exchange.moduleOfText text = .ok next)
    (module : Module) : (take module (.decode text)).value = (.ok (), next) := by
  rw [take, replaceBy_value, h]

theorem Ends.fails_iff (h : step.Ends module result next) :
    (∃ fault, result = .error fault) ↔ step.Fails := by
  -- a step that appends or replaces contradicts what would make it fail
  cases h with
  | appended happended =>
    refine iff_of_false (by simp) fun hfails => ?_
    cases step with
    | make partition name kind doc sig =>
      rw [appended?, (Symbol.ofParts?_eq_none_iff ..).mpr hfails] at happended
      contradiction
    | decode text => contradiction
    | _ => exact hfails
  | replaced htext hnext =>
    refine iff_of_false (by simp) fun hfails => ?_
    cases step with
    | decode text =>
      obtain ⟨fault, hfault⟩ := hfails
      rw [← Option.some.inj htext, hfault] at hnext
      contradiction
    | make partition name kind doc sig => contradiction
    | _ => exact hfails
  | failed hfails => exact iff_of_true ⟨_, rfl⟩ hfails

theorem Ends.eq_of_fails (h : step.Ends module result next) (hfails : step.Fails) :
    next = module := by
  obtain ⟨fault, rfl⟩ := h.fails_iff.mpr hfails
  cases h
  rfl

/-- The kind of the symbol that a step appends was made from text. -/
def IsTextual (step : GrowthStep) : Prop :=
  ∀ partition symbol, step.appended? = some (partition, symbol) → symbol.IsTextual

theorem Ends.isTextual (h : step.Ends module result next) (hmodule : module.IsTextual)
    (hstep : step.IsTextual) : next.IsTextual := by
  cases h with
  | @appended partition symbol happended =>
    intro other member hmember
    rw [Module.partition_push] at hmember
    split at hmember
    · rcases List.mem_append.mp hmember with hold | hnew
      · exact hmodule other member hold
      · rw [List.mem_singleton.mp hnew]
        exact hstep partition symbol happended
    · exact hmodule other member hmember
  | replaced _ hnext => exact Exchange.isTextual_of_moduleOfText hnext
  | failed => exact hmodule

def appendedTo? (partition : Partition) (step : GrowthStep) : Option Symbol :=
  step.appended?.bind fun (other, symbol) => if other = partition then some symbol else none

theorem partition_push_of_appended {partition : Partition} {symbol : Symbol}
    (h : step.appended? = some (partition, symbol)) (module : Module) (other : Partition) :
    (module.push partition symbol).partition other =
      module.partition other ++ (step.appendedTo? other).toList := by
  rw [Module.partition_push, appendedTo?, h, Option.bind_some]
  dsimp only
  by_cases hother : other = partition
  · rw [if_pos hother, if_pos hother.symm]
    rfl
  · rw [if_neg hother, if_neg (Ne.symm hother), Option.toList_none, List.append_nil]

theorem appendedTo?_of_fails (h : step.Fails) (partition : Partition) :
    step.appendedTo? partition = none := by
  cases step with
  | make other name kind doc sig =>
    rw [appendedTo?, appended?, (Symbol.ofParts?_eq_none_iff ..).mpr h]
    rfl
  | decode text => rfl
  | _ => exact h.elim

def Replaces : GrowthStep → Prop
  | .reload _ => True
  | .decode text => ∃ module, Exchange.moduleOfText text = .ok module
  | .add _ _ | .make _ _ _ _ _ => False

end GrowthStep

/-! ## 2. Symbols that were appended -/

namespace Growth

def appendedTo (partition : Partition) (steps : List GrowthStep) : List Symbol :=
  steps.filterMap (·.appendedTo? partition)

/-- Whether a module is another one with the symbols behind it that steps append. -/
structure Extends (base : Module) (steps : List GrowthStep) (module : Module) : Prop where
  name : module.name = base.name
  partition : ∀ partition,
    module.partition partition = base.partition partition ++ appendedTo partition steps

variable {start base module next : Module} {step : GrowthStep} {steps more : List GrowthStep}
  {result : Except GrowthFault Unit}

theorem Extends.refl (module : Module) : Extends module [] module :=
  ⟨rfl, fun _ => (List.append_nil _).symm⟩

theorem Extends.trans (h : Extends base steps module) (h' : Extends module more next) :
    Extends base (steps ++ more) next := by
  refine ⟨h'.name.trans h.name, fun partition => ?_⟩
  rw [h'.partition, h.partition, List.append_assoc, appendedTo, appendedTo, appendedTo,
    List.filterMap_append]

theorem appendedTo_singleton (partition : Partition) (step : GrowthStep) :
    appendedTo partition [step] = (step.appendedTo? partition).toList := by
  rw [appendedTo, List.filterMap_cons]
  cases step.appendedTo? partition <;> rfl

theorem extends_of_appends_none (h : ∀ partition, step.appendedTo? partition = none)
    (module : Module) : Extends module [step] module := by
  refine ⟨rfl, fun partition => ?_⟩
  rw [appendedTo_singleton, h, Option.toList_none, List.append_nil]

/-- A step that replaces nothing appends at most one symbol. -/
theorem extends_of_not_replaces (h : step.Ends module result next) (hkeeps : ¬step.Replaces) :
    Extends module [step] next := by
  cases h with
  | appended happended =>
    refine ⟨Module.name_push .., fun partition => ?_⟩
    rw [appendedTo_singleton, GrowthStep.partition_push_of_appended happended]
  | replaced htext hnext =>
    refine absurd ?_ hkeeps
    cases step with
    | reload layout => trivial
    | decode text => exact ⟨next, Option.some.inj htext ▸ hnext⟩
    | _ => contradiction
  | failed hfails => exact extends_of_appends_none (GrowthStep.appendedTo?_of_fails hfails) module

/-- A reload of a module whose kinds were made from text changes nothing. -/
theorem take_reload_of_isTextual (h : module.IsTextual) (layout : Layout) :
    (GrowthStep.take module (.reload layout)).value = (.ok (), module) := by
  rw [GrowthStep.take_reload, module.reread_eq_self_iff_isTextual.mpr h]

/-! ## 3. Runs -/

/-- Takes steps one after another, whether they succeed or not. -/
def run (module : Module) : List GrowthStep → Logged Module
  | [] => pure module
  | step :: steps => do run (← step.take module).2 steps

theorem run_append (start : Module) (front back : List GrowthStep) :
    (run start (front ++ back)).value = (run (run start front).value back).value := by
  induction front generalizing start with
  | nil => rfl
  | cons step front ih => exact ih _

theorem run_concat (start : Module) (steps : List GrowthStep) (step : GrowthStep) :
    (run start (steps ++ [step])).value = (step.take (run start steps).value).value.2 := by
  rw [run_append]
  rfl

theorem isTextual_run (hstart : start.IsTextual) (h : ∀ step ∈ steps, step.IsTextual) :
    (run start steps).value.IsTextual := by
  induction steps generalizing start with
  | nil => exact hstart
  | cons step steps ih =>
    obtain ⟨hstep, hmore⟩ := List.forall_mem_cons.mp h
    exact ih ((step.take_ends start).isTextual hstart hstep) hmore

/-- If all steps but some do no more than append, a run ends in what it had behind the last of
these, and the symbols that were appended since. -/
theorem exists_since {IsLast : GrowthStep → Prop}
    (h : ∀ front step, front ++ [step] <+: steps → ¬IsLast step →
      Extends (run start front).value [step] (run start (front ++ [step])).value) :
    ∃ front since, steps = front ++ since ∧
      (front = [] ∨ ∃ earlier step, front = earlier ++ [step] ∧ IsLast step) ∧
      (∀ step ∈ since, ¬IsLast step) ∧
      Extends (run start front).value since (run start steps).value := by
  -- from the right: the last step either ends a new front or is one more since the old one
  induction steps using List.reverseRecOn with
  | nil => exact ⟨[], [], rfl, .inl rfl, by simp, .refl _⟩
  | append_singleton steps step ih =>
    by_cases hstep : IsLast step
    · exact ⟨steps ++ [step], [], (List.append_nil _).symm, .inr ⟨steps, step, rfl, hstep⟩,
        by simp, .refl _⟩
    · obtain ⟨front, since, rfl, hfront, hsince, hextends⟩ :=
        ih fun front step hfront => h front step (hfront.trans (List.prefix_append _ _))
      refine ⟨front, since ++ [step], List.append_assoc .., hfront, ?_, ?_⟩
      · rw [List.forall_mem_append, List.forall_mem_singleton]
        exact ⟨hsince, hstep⟩
      · exact hextends.trans (h _ step (List.prefix_refl _) hstep)

/-- Symbols may be appended to different partitions in either order. -/
theorem run_swap {first second : GrowthStep} {p q : Partition} {s t : Symbol}
    (hfirst : first.appended? = some (p, s)) (hsecond : second.appended? = some (q, t))
    (hne : p ≠ q) (front back : List GrowthStep) :
    (run start (front ++ first :: second :: back)).value =
      (run start (front ++ second :: first :: back)).value := by
  rw [run_append, run_append]
  simp only [run, Logged.bind_value, GrowthStep.take_of_appended hfirst,
    GrowthStep.take_of_appended hsecond, Module.push_push_of_ne hne]

/-! ## 4. Modules that have grown from nothing -/

def grown (name : String) (steps : List GrowthStep) : Module :=
  (run (.empty name) steps).value

/-- The module that was decoded at the end of some steps, or the empty one that they begin with. -/
inductive IsBase (name : String) : List GrowthStep → Module → Prop
  | empty : IsBase name [] (.empty name)
  | decoded {steps : List GrowthStep} {step : GrowthStep} {text : String} {base : Module}
      (htext : step.decoded? (grown name steps) = some text)
      (hbase : Exchange.moduleOfText text = .ok base) : IsBase name (steps ++ [step]) base

theorem grown_concat (name : String) (steps : List GrowthStep) (step : GrowthStep) :
    grown name (steps ++ [step]) = (step.take (grown name steps)).value.2 :=
  run_concat ..

theorem isBase_of_replaces {name : String} (h : step.Replaces) (steps : List GrowthStep) :
    IsBase name (steps ++ [step]) (grown name (steps ++ [step])) := by
  cases step with
  | reload layout =>
    refine .decoded rfl ?_
    rw [grown_concat, GrowthStep.take_reload]
    exact Exchange.moduleOfText_encode layout _
  | decode text =>
    obtain ⟨next, hnext⟩ := h
    refine .decoded rfl ?_
    rw [grown_concat, GrowthStep.take_decode hnext]
    exact hnext
  | add | make => exact h.elim

theorem isTextual_empty (name : String) : (Module.empty name).IsTextual := by
  rintro (_ | _) symbol hmem <;> exact absurd hmem List.not_mem_nil

/-- The module is made up of the one that was decoded last and of the symbols that were appended
since. -/
theorem exists_base (name : String) (steps : List GrowthStep) :
    ∃ front since base, steps = front ++ since ∧ IsBase name front base ∧
      (∀ step ∈ since, ¬step.Replaces) ∧ Extends base since (grown name steps) := by
  have hkeeps : ∀ front (step : GrowthStep), ¬step.Replaces →
      Extends (run (.empty name) front).value [step]
        (run (.empty name) (front ++ [step])).value := by
    intro front step hstep
    rw [run_concat]
    exact extends_of_not_replaces (step.take_ends _) hstep
  obtain ⟨front, since, hsteps, hfront, hsince, hextends⟩ :=
    exists_since fun front step _ hstep => hkeeps front step hstep
  refine ⟨front, since, _, hsteps, ?_, hsince, hextends⟩
  rcases hfront with rfl | ⟨earlier, step, rfl, hstep⟩
  · exact .empty
  · exact isBase_of_replaces hstep earlier

/-- If all kinds that are given were made from text, reloads are as good as no steps. -/
theorem exists_base_of_isTextual (name : String) {steps : List GrowthStep}
    (h : ∀ step ∈ steps, step.IsTextual) :
    ∃ front since base, steps = front ++ since ∧
      (front = [] ∧ base = .empty name ∨
        ∃ earlier text, front = earlier ++ [.decode text] ∧
          Exchange.moduleOfText text = .ok base) ∧
      (∀ text, .decode text ∈ since → ∃ fault, Exchange.moduleOfText text = .error fault) ∧
      Extends base since (grown name steps) := by
  have hkeeps : ∀ front step, front ++ [step] <+: steps →
      (¬∃ text next, step = .decode text ∧ Exchange.moduleOfText text = .ok next) →
        Extends (run (.empty name) front).value [step]
          (run (.empty name) (front ++ [step])).value := by
    intro front step hfront hstep
    rw [run_concat]
    have htextual : (run (.empty name) front).value.IsTextual :=
      isTextual_run (isTextual_empty name) fun member hmember =>
        h member (hfront.subset (List.mem_append_left _ hmember))
    -- a reload replaces the module by itself, since all its kinds were made from text
    cases step with
    | reload layout =>
      rw [take_reload_of_isTextual htextual]
      exact extends_of_appends_none (fun _ => rfl) _
    | decode text =>
      refine extends_of_not_replaces (GrowthStep.take_ends ..) ?_
      rintro ⟨next, hnext⟩
      exact hstep ⟨text, next, rfl, hnext⟩
    | add | make => exact extends_of_not_replaces (GrowthStep.take_ends ..) id
  obtain ⟨front, since, hsteps, hfront, hsince, hextends⟩ := exists_since hkeeps
  refine ⟨front, since, _, hsteps, ?_, fun text htext => ?_, hextends⟩
  · rcases hfront with rfl | ⟨earlier, _, rfl, text, next, rfl, hnext⟩
    · exact .inl ⟨rfl, rfl⟩
    · refine .inr ⟨earlier, text, rfl, ?_⟩
      rw [run_concat, GrowthStep.take_decode hnext]
      exact hnext
  · cases hdecode : Exchange.moduleOfText text with
    | error fault => exact ⟨fault, rfl⟩
    | ok next => exact absurd ⟨text, next, rfl, hdecode⟩ (hsince _ htext)

/-- A module that has grown from an empty one has names for all its symbols, and its partitions are
those that were decoded last with the symbols behind them that were appended since, in their order.
The next step leaves the module as it is if it fails, or if it reloads kinds that were made from
text; two that append to different partitions may be taken in either order. -/
theorem grown_partition (name : String) (steps : List GrowthStep) :
    (∀ partition, ∀ symbol ∈ (grown name steps).partition partition, symbol.name ≠ "") ∧
      (∀ step : GrowthStep,
        ((∃ fault, (step.take (grown name steps)).value.1 = .error fault) ↔ step.Fails) ∧
          (step.Fails → grown name (steps ++ [step]) = grown name steps)) ∧
      ((grown name steps).IsTextual → ∀ layout,
        grown name (steps ++ [.reload layout]) = grown name steps) ∧
      (∃ front since base, steps = front ++ since ∧ IsBase name front base ∧
        (∀ step ∈ since, ¬step.Replaces) ∧ Extends base since (grown name steps)) ∧
      ((∀ step ∈ steps, step.IsTextual) → (grown name steps).IsTextual ∧
        ∃ front since base, steps = front ++ since ∧
          (front = [] ∧ base = .empty name ∨
            ∃ earlier text, front = earlier ++ [.decode text] ∧
              Exchange.moduleOfText text = .ok base) ∧
          (∀ text, .decode text ∈ since → ∃ fault, Exchange.moduleOfText text = .error fault) ∧
          Extends base since (grown name steps)) ∧
      ∀ (first second : GrowthStep) (back : List GrowthStep) (p q : Partition) (s t : Symbol),
        first.appended? = some (p, s) → second.appended? = some (q, t) → p ≠ q →
          grown name (steps ++ first :: second :: back) =
            grown name (steps ++ second :: first :: back) := by
  refine ⟨fun _ symbol _ => symbol.name_ne, fun step => ?_, fun htextual layout => ?_,
    exists_base name steps, fun hsteps => ?_, ?_⟩
  · have hends := step.take_ends (grown name steps)
    refine ⟨hends.fails_iff, fun hfails => ?_⟩
    rw [grown_concat, hends.eq_of_fails hfails]
  · rw [grown_concat, take_reload_of_isTextual htextual]
  · exact ⟨isTextual_run (isTextual_empty name) hsteps, exists_base_of_isTextual name hsteps⟩
  · intro first second back p q s t hfirst hsecond hne
    exact run_swap hfirst hsecond hne steps back

end Growth

end ModuleSurface
