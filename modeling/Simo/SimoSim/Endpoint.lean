import Mathlib.Data.List.Basic
import Simo.Module.Module

/-!
# Endpoints of connections

A configuration names an endpoint by a module, a separator and a port.  The program looks the module
up in its map of top-level modules, and the port among the module's own ports.
-/

namespace Simo.SimoSim

/-- `std::string::find` of a character from a position on, where `none` is `npos`. -/
def find (text : List Char) (c : Char) (pos : ℕ) : Option ℕ :=
  ((text.drop pos).findIdx? (· == c)).map (· + pos)

structure ModulePortName where
  module : List Char
  port : List Char
deriving DecidableEq

def parseModulePortName (connectionEndpoint : List Char) : Option ModulePortName :=
  match find connectionEndpoint '/' 0 with
  | none => none
  | some separator =>
      if separator = 0 ∨ separator = connectionEndpoint.length - 1 ∨
          find connectionEndpoint '/' (separator + 1) ≠ none then none
      else
        some {
          module := connectionEndpoint.take separator
          port := connectionEndpoint.drop (separator + 1) }

structure ModuleParameterPair (PortRef Params : Type*) where
  module : Module PortRef
  parameters : Params

/-- `module_map`, in the order in which a loop over it visits the modules. -/
abbrev ModuleMap (PortRef Params : Type*) :=
  AList fun _ : List Char => ModuleParameterPair PortRef Params

/-- How `main` gets the port of an endpoint; any other outcome is an invalid connection. -/
def resolveEndpoint {PortRef Params : Type*} (moduleMap : ModuleMap PortRef Params)
    (endpoint : List Char) : Option PortRef :=
  match parseModulePortName endpoint with
  | none => none
  | some name =>
      match moduleMap.lookup name.module with
      | none => none
      | some pair => pair.module.getPort name.port

/-! ## The grammar of endpoints -/

/-- A name that can be one side of an endpoint. -/
def PlainName (name : List Char) : Prop := name ≠ [] ∧ '/' ∉ name

instance (name : List Char) : Decidable (PlainName name) := inferInstanceAs (Decidable (_ ∧ _))

theorem find_eq_none_iff {text : List Char} {c : Char} {pos : ℕ} :
    find text c pos = none ↔ c ∉ text.drop pos := by
  simp only [find, Option.map_eq_none_iff, List.findIdx?_eq_none_iff, beq_eq_false_iff_ne]
  constructor
  · intro apart member
    exact apart c member rfl
  · rintro absent x member rfl
    exact absent member

/-- The first occurrence of a character splits a text. -/
theorem find_zero_eq_some_iff {text : List Char} {c : Char} {position : ℕ} :
    find text c 0 = some position ↔
      ∃ before after, text = before ++ c :: after ∧ before.length = position ∧ c ∉ before := by
  constructor
  · intro found
    simp only [find, List.drop_zero, Nat.add_zero, Option.map_id',
      List.findIdx?_eq_some_iff_getElem, beq_iff_eq] at found
    obtain ⟨bound, here, first⟩ := found
    refine ⟨text.take position, text.drop (position + 1), ?_, ?_, ?_⟩
    · rw [← here, ← List.drop_eq_getElem_cons bound, List.take_append_drop]
    · rw [List.length_take]
      omega
    · intro member
      obtain ⟨index, earlier, same⟩ := List.mem_take_iff_getElem.mp member
      exact first index (by omega) same
  · rintro ⟨before, after, rfl, rfl, absent⟩
    have nothing : find before c 0 = none := find_eq_none_iff.mpr absent
    simp only [find, List.drop_zero, Nat.add_zero, Option.map_id'] at nothing ⊢
    simp [nothing, List.findIdx?_cons]

/-- A text that has a separator is cut at the first one, if both sides are plain names. -/
theorem parseModulePortName_of_notMem {module port : List Char} (absent : '/' ∉ module) :
    parseModulePortName (module ++ '/' :: port) =
      if PlainName module ∧ PlainName port then some ⟨module, port⟩ else none := by
  have found : find (module ++ '/' :: port) '/' 0 = some module.length :=
    find_zero_eq_some_iff.mpr ⟨module, port, rfl, rfl, absent⟩
  have after : (module ++ '/' :: port).drop (module.length + 1) = port := by simp
  have again : find (module ++ '/' :: port) '/' (module.length + 1) ≠ none ↔ '/' ∈ port := by
    rw [ne_eq, find_eq_none_iff, after, not_not]
  have atStart : module.length = 0 ↔ module = [] := List.length_eq_zero_iff
  have atEnd : module.length = (module ++ '/' :: port).length - 1 ↔ port = [] := by
    rw [List.length_append, List.length_cons, ← List.length_eq_zero_iff]
    omega
  simp only [parseModulePortName, found, again, atStart, atEnd, after, List.take_left]
  by_cases plain : PlainName module ∧ PlainName port
  · rw [if_pos plain, if_neg]
    rintro (nothing | nothing | more)
    · exact plain.1.1 nothing
    · exact plain.2.1 nothing
    · exact plain.2.2 more
  · rw [if_neg plain, if_pos]
    by_contra proper
    obtain ⟨nonempty, notLast, single⟩ := not_or.mp proper |>.imp_right not_or.mp
    exact plain ⟨⟨nonempty, absent⟩, notLast, single⟩

/-- An endpoint is two plain names with a separator between them. -/
theorem parseModulePortName_eq_some_iff {endpoint : List Char} {name : ModulePortName} :
    parseModulePortName endpoint = some name ↔
      endpoint = name.module ++ '/' :: name.port ∧ PlainName name.module ∧ PlainName name.port := by
  constructor
  · intro parsed
    cases found : find endpoint '/' 0 with
    | none => simp [parseModulePortName, found] at parsed
    | some separator =>
        obtain ⟨module, port, rfl, -, absent⟩ := find_zero_eq_some_iff.mp found
        rw [parseModulePortName_of_notMem absent] at parsed
        split at parsed
        next plain =>
          cases parsed
          exact ⟨rfl, plain⟩
        next => cases parsed
  · rintro ⟨rfl, plain⟩
    rw [parseModulePortName_of_notMem plain.1.2, if_pos plain]

/-- A text with a separator is parsed as the two names around it, or not at all. -/
theorem parseModulePortName_append_iff {module port : List Char} {name : ModulePortName} :
    parseModulePortName (module ++ '/' :: port) = some name ↔
      name = ⟨module, port⟩ ∧ PlainName module ∧ PlainName port := by
  rw [parseModulePortName_eq_some_iff]
  constructor
  · rintro ⟨same, moduleName, portName⟩
    obtain ⟨rfl, -, rfl⟩ :=
      (List.append_cons_inj_of_notMem moduleName.2 portName.2).mp same.symm
    exact ⟨rfl, moduleName, portName⟩
  · rintro ⟨rfl, plain⟩
    exact ⟨rfl, plain⟩

/-- A text is parsed if and only if it has one separator, with something on either side. -/
theorem isSome_parseModulePortName_iff {endpoint : List Char} :
    (parseModulePortName endpoint).isSome = true ↔
      endpoint.count '/' = 1 ∧
        ∃ before after, before ≠ [] ∧ after ≠ [] ∧ endpoint = before ++ '/' :: after := by
  constructor
  · intro parsed
    obtain ⟨name, found⟩ := Option.isSome_iff_exists.mp parsed
    obtain ⟨rfl, module, port⟩ := parseModulePortName_eq_some_iff.mp found
    refine ⟨?_, name.module, name.port, module.1, port.1, rfl⟩
    rw [List.count_append, List.count_cons_self, List.count_eq_zero.mpr module.2,
      List.count_eq_zero.mpr port.2]
  · rintro ⟨single, before, after, nonempty, nonempty', rfl⟩
    rw [List.count_append, List.count_cons_self] at single
    have absent : '/' ∉ before := List.count_eq_zero.mp (by omega)
    have absent' : '/' ∉ after := List.count_eq_zero.mp (by omega)
    have parsed := parseModulePortName_append_iff.mpr
      ⟨rfl, ⟨nonempty, absent⟩, nonempty', absent'⟩
    rw [parsed, Option.isSome_some]

/-- Parsing accepts the texts of the grammar and no others, returns the one pair that makes up the
text, and undoes the joining of two plain names. -/
theorem parseModulePortName_grammar :
    (∀ endpoint : List Char,
      ((parseModulePortName endpoint).isSome = true ↔
        endpoint.count '/' = 1 ∧
          ∃ before after, before ≠ [] ∧ after ≠ [] ∧ endpoint = before ++ '/' :: after) ∧
      ∀ name, parseModulePortName endpoint = some name → ∀ module port,
        endpoint = module ++ '/' :: port ↔ name = ⟨module, port⟩) ∧
    ∀ module port : List Char, module ≠ [] → '/' ∉ module → port ≠ [] → '/' ∉ port →
      parseModulePortName (module ++ '/' :: port) = some ⟨module, port⟩ := by
  refine ⟨fun endpoint => ⟨isSome_parseModulePortName_iff, fun name parsed module port => ?_⟩, ?_⟩
  · constructor
    · rintro rfl
      exact (parseModulePortName_append_iff.mp parsed).1
    · rintro rfl
      exact (parseModulePortName_eq_some_iff.mp parsed).1
  · intro module port nonempty absent nonempty' absent'
    exact parseModulePortName_append_iff.mpr ⟨rfl, ⟨nonempty, absent⟩, nonempty', absent'⟩

theorem parseModulePortName_grammar_sourceOut :
    parseModulePortName "source/out".toList = some ⟨"source".toList, "out".toList⟩ :=
  parseModulePortName_grammar.2 "source".toList "out".toList (by decide) (by decide) (by decide)
    (by decide)

end Simo.SimoSim
