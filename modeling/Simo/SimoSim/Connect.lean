import Simo.Port.Contract
import Simo.Port.Outcome
import Simo.SimoSim.Instantiate

/-!
# The connections of a configuration

`main` connects the ports that the configuration lists in pairs, in the order of the list, and stops
at the first pair that it cannot connect.  Connecting overwrites what a port was connected to, so
what is in place after the loop is decided by the last pair that names a port.
-/

namespace Simo.SimoSim

/-- Why the loop over the connections stops. -/
inductive ConnectionError where
  | invalidEndpoint
  | unknownModule
  | unknownPort
  | couldNotConnect
deriving DecidableEq

/-- The beginning of the line that is written. -/
def ConnectionError.text : ConnectionError → String
  | invalidEndpoint => "Invalid connection endpoint: "
  | unknownModule => "Connection references unknown module: "
  | unknownPort => "Connection references unknown port: "
  | couldNotConnect => "Could not connect ports: "

def ConnectionError.code : ConnectionError → ReturnCode
  | invalidEndpoint | unknownModule | unknownPort => .invalidConnection
  | couldNotConnect => .connectionFailed

/-- The left and the right endpoint of a connection, as the configuration has them. -/
abbrev Endpoints := List Char × List Char

/-- The error, and the connection that it is about. -/
structure ConnectionStop where
  error : ConnectionError
  endpoints : Endpoints

def ConnectionStop.message (stop : ConnectionStop) : String :=
  stop.error.text ++ .ofList stop.endpoints.1 ++ " -> " ++ .ofList stop.endpoints.2 ++ "\n"

variable {Ty Id Params : Type*} [DecidableEq Ty] [DecidableEq Id]

/-- The body of the loop over the connections.  There is no result where connecting has none. -/
def connectEndpoints (classOf : Id → PortClass Ty) (moduleMap : ModuleMap Id Params)
    (connections : Connections Id) (endpoints : Endpoints) :
    Option (Except ConnectionStop (Connections Id)) :=
  match parseModulePortName endpoints.1, parseModulePortName endpoints.2 with
  | some left, some right =>
      match moduleMap.lookup left.module, moduleMap.lookup right.module with
      | some leftPair, some rightPair =>
          match leftPair.module.getPort left.port, rightPair.module.getPort right.port with
          | some leftPort, some rightPort =>
              match connect classOf connections ⟨leftPort, .whole⟩ (some ⟨rightPort, .whole⟩) with
              | none => none
              | some (true, connections) => some (.ok connections)
              | some (false, _) => some (.error ⟨.couldNotConnect, endpoints⟩)
          | _, _ => some (.error ⟨.unknownPort, endpoints⟩)
      | _, _ => some (.error ⟨.unknownModule, endpoints⟩)
  | _, _ => some (.error ⟨.invalidEndpoint, endpoints⟩)

/-- The loop over the connections. -/
def connectAll (classOf : Id → PortClass Ty) (moduleMap : ModuleMap Id Params) :
    Connections Id → List Endpoints → Option (Except ConnectionStop (Connections Id))
  | connections, [] => some (.ok connections)
  | connections, endpoints :: rest =>
      match connectEndpoints classOf moduleMap connections endpoints with
      | some (.ok connections) => connectAll classOf moduleMap connections rest
      | stopped => stopped

/-! ## When the loop gets through -/

section Outcome

variable {classOf : Id → PortClass Ty} {moduleMap : ModuleMap Id Params}
  {connections : Connections Id} {endpoints : Endpoints} {left right : Id}

/-- The endpoints name two ports. -/
def Resolves (moduleMap : ModuleMap Id Params) (endpoints : Endpoints) (left right : Id) : Prop :=
  resolveEndpoint moduleMap endpoints.1 = some left ∧
    resolveEndpoint moduleMap endpoints.2 = some right

/-- The endpoints name two ports, and the left one accepts the right one. -/
def Joinable (classOf : Id → PortClass Ty) (moduleMap : ModuleMap Id Params)
    (endpoints : Endpoints) : Prop :=
  ∃ left right, Resolves moduleMap endpoints left right ∧
    (classOf left).accepts (classOf right) = true

/-- What is wrong with a connection, up to what the loop looks at first. -/
def Refused (classOf : Id → PortClass Ty) (moduleMap : ModuleMap Id Params)
    (endpoints : Endpoints) : ConnectionError → Prop
  | .invalidEndpoint =>
      parseModulePortName endpoints.1 = none ∨ parseModulePortName endpoints.2 = none
  | .unknownModule => ∃ left right, parseModulePortName endpoints.1 = some left ∧
      parseModulePortName endpoints.2 = some right ∧
      (moduleMap.lookup left.module = none ∨ moduleMap.lookup right.module = none)
  | .unknownPort => ∃ left right leftPair rightPair,
      parseModulePortName endpoints.1 = some left ∧
      parseModulePortName endpoints.2 = some right ∧
      moduleMap.lookup left.module = some leftPair ∧
      moduleMap.lookup right.module = some rightPair ∧
      (leftPair.module.getPort left.port = none ∨ rightPair.module.getPort right.port = none)
  | .couldNotConnect => ∃ left right, Resolves moduleMap endpoints left right ∧
      (classOf left).accepts (classOf right) = false

omit [DecidableEq Ty] [DecidableEq Id] in
theorem resolveEndpoint_eq_some_iff {endpoint : List Char} {port : Id} :
    resolveEndpoint moduleMap endpoint = some port ↔
      ∃ name pair, parseModulePortName endpoint = some name ∧
        moduleMap.lookup name.module = some pair ∧ pair.module.getPort name.port = some port := by
  rw [resolveEndpoint]
  cases parsed : parseModulePortName endpoint with
  | none => simp
  | some name =>
      cases found : moduleMap.lookup name.module with
      | none => simp [found]
      | some pair => simp [found]

/-- Endpoints that name ports are connected unless the classes of the ports do not go together. -/
theorem connectEndpoints_of_resolves (connections : Connections Id)
    (resolves : Resolves moduleMap endpoints left right) :
    connectEndpoints classOf moduleMap connections endpoints =
      some (if (classOf left).accepts (classOf right) then
        .ok (connections.join (classOf left) ⟨left, .whole⟩ ⟨right, .whole⟩)
      else .error ⟨.couldNotConnect, endpoints⟩) := by
  obtain ⟨name, pair, parsed, found, port⟩ := resolveEndpoint_eq_some_iff.mp resolves.1
  obtain ⟨name', pair', parsed', found', port'⟩ := resolveEndpoint_eq_some_iff.mp resolves.2
  have leftType : typeOf classOf ⟨left, .whole⟩ = some (classOf left) := rfl
  have rightType : typeOf classOf ⟨right, .whole⟩ = some (classOf right) := rfl
  have outcome := connect_eq connections leftType rightType
  simp only [connectEndpoints, parsed, parsed', found, found', port, port', outcome]
  by_cases accepted : (classOf left).accepts (classOf right) = true
  · simp [accepted]
  · simp [accepted]

theorem connectEndpoints_of_refused (connections : Connections Id) {error : ConnectionError}
    (refused : Refused classOf moduleMap endpoints error) :
    connectEndpoints classOf moduleMap connections endpoints =
      some (.error ⟨error, endpoints⟩) := by
  cases error with
  | invalidEndpoint =>
      rcases refused with parsed | parsed
      · rw [connectEndpoints, parsed]
      · rw [connectEndpoints, parsed]
        cases parseModulePortName endpoints.1 <;> rfl
  | unknownModule =>
      obtain ⟨left, right, parsed, parsed', missing | missing⟩ := refused
      · simp only [connectEndpoints, parsed, parsed', missing]
      · simp only [connectEndpoints, parsed, parsed', missing]
        cases moduleMap.lookup left.module <;> rfl
  | unknownPort =>
      obtain ⟨left, right, pair, pair', parsed, parsed', found, found', missing | missing⟩ :=
        refused
      · simp only [connectEndpoints, parsed, parsed', found, found', missing]
      · simp only [connectEndpoints, parsed, parsed', found, found', missing]
        cases pair.module.getPort left.port <;> rfl
  | couldNotConnect =>
      obtain ⟨left, right, resolves, unaccepted⟩ := refused
      rw [connectEndpoints_of_resolves connections resolves,
        if_neg (ne_true_of_eq_false unaccepted)]

omit [DecidableEq Id] in
/-- Every connection can be made, or something is wrong with it. -/
theorem joinable_or_refused (classOf : Id → PortClass Ty) (moduleMap : ModuleMap Id Params)
    (endpoints : Endpoints) :
    Joinable classOf moduleMap endpoints ∨ ∃ error, Refused classOf moduleMap endpoints error := by
  cases parsed : parseModulePortName endpoints.1 with
  | none => exact .inr ⟨.invalidEndpoint, .inl parsed⟩
  | some left =>
  cases parsed' : parseModulePortName endpoints.2 with
  | none => exact .inr ⟨.invalidEndpoint, .inr parsed'⟩
  | some right =>
  cases found : moduleMap.lookup left.module with
  | none => exact .inr ⟨.unknownModule, left, right, parsed, parsed', .inl found⟩
  | some pair =>
  cases found' : moduleMap.lookup right.module with
  | none => exact .inr ⟨.unknownModule, left, right, parsed, parsed', .inr found'⟩
  | some pair' =>
  cases port : pair.module.getPort left.port with
  | none =>
      exact .inr ⟨.unknownPort, left, right, pair, pair', parsed, parsed', found, found', .inl port⟩
  | some leftPort =>
  cases port' : pair'.module.getPort right.port with
  | none =>
      exact .inr ⟨.unknownPort, left, right, pair, pair', parsed, parsed', found, found',
        .inr port'⟩
  | some rightPort =>
  have resolves : Resolves moduleMap endpoints leftPort rightPort :=
    ⟨resolveEndpoint_eq_some_iff.mpr ⟨left, pair, parsed, found, port⟩,
      resolveEndpoint_eq_some_iff.mpr ⟨right, pair', parsed', found', port'⟩⟩
  by_cases accepted : (classOf leftPort).accepts (classOf rightPort) = true
  · exact .inl ⟨leftPort, rightPort, resolves, accepted⟩
  · exact .inr ⟨.couldNotConnect, leftPort, rightPort, resolves, eq_false_of_ne_true accepted⟩

/-- Of a connection that can be made nothing is wrong. -/
theorem Joinable.not_refused (joinable : Joinable classOf moduleMap endpoints)
    {error : ConnectionError} : ¬ Refused classOf moduleMap endpoints error := by
  intro refused
  obtain ⟨left, right, resolves, accepted⟩ := joinable
  have made := (connectEndpoints_of_refused .new refused).symm.trans
    (connectEndpoints_of_resolves .new resolves)
  rw [if_pos accepted] at made
  cases made

/-- The ports that the connections name, in the order of the list. -/
def endsOf (moduleMap : ModuleMap Id Params) (list : List Endpoints) : List (Id × Id) :=
  list.filterMap fun endpoints =>
    (resolveEndpoint moduleMap endpoints.1).bind fun left =>
      (resolveEndpoint moduleMap endpoints.2).map (left, ·)

/-- The pointers after each left port has connected to its right port. -/
def joinAll (classOf : Id → PortClass Ty) (connections : Connections Id) (ends : List (Id × Id)) :
    Connections Id :=
  ends.foldl (fun connections ports =>
    connections.join (classOf ports.1) ⟨ports.1, .whole⟩ ⟨ports.2, .whole⟩) connections

omit [DecidableEq Ty] [DecidableEq Id] in
theorem mem_endsOf {list : List Endpoints} :
    (left, right) ∈ endsOf moduleMap list ↔
      ∃ endpoints ∈ list, Resolves moduleMap endpoints left right := by
  simp only [endsOf, List.mem_filterMap, Option.bind_eq_some_iff, Option.map_eq_some_iff, Resolves]
  constructor
  · rintro ⟨endpoints, member, left, first, right, second, same⟩
    cases same
    exact ⟨endpoints, member, first, second⟩
  · rintro ⟨endpoints, member, first, second⟩
    exact ⟨endpoints, member, left, first, right, second, rfl⟩

/-- Connections that can be made are made, and the loop goes on. -/
theorem connectAll_append {before : List Endpoints}
    (joinable : ∀ endpoints ∈ before, Joinable classOf moduleMap endpoints)
    (connections : Connections Id) (rest : List Endpoints) :
    connectAll classOf moduleMap connections (before ++ rest) =
      connectAll classOf moduleMap (joinAll classOf connections (endsOf moduleMap before))
        rest := by
  induction before generalizing connections with
  | nil => rfl
  | cons endpoints before induction =>
      obtain ⟨⟨left, right, resolves, accepted⟩, later⟩ := List.forall_mem_cons.mp joinable
      have made : connectEndpoints classOf moduleMap connections endpoints = some _ :=
        connectEndpoints_of_resolves connections resolves
      rw [if_pos accepted] at made
      have ends : endsOf moduleMap (endpoints :: before) =
          (left, right) :: endsOf moduleMap before := by
        rw [endsOf, List.filterMap_cons, resolves.1, resolves.2]
        rfl
      rw [List.cons_append, connectAll, made, ends]
      exact induction later _

theorem connectAll_of_joinable {list : List Endpoints}
    (joinable : ∀ endpoints ∈ list, Joinable classOf moduleMap endpoints)
    (connections : Connections Id) :
    connectAll classOf moduleMap connections list =
      some (.ok (joinAll classOf connections (endsOf moduleMap list))) := by
  have through := connectAll_append joinable connections []
  rwa [List.append_nil] at through

theorem connectAll_of_refused {before : List Endpoints} {error : ConnectionError}
    (joinable : ∀ earlier ∈ before, Joinable classOf moduleMap earlier)
    (refused : Refused classOf moduleMap endpoints error) (connections : Connections Id)
    (rest : List Endpoints) :
    connectAll classOf moduleMap connections (before ++ endpoints :: rest) =
      some (.error ⟨error, endpoints⟩) := by
  rw [connectAll_append joinable, connectAll, connectEndpoints_of_refused _ refused]

omit [DecidableEq Id] in
/-- All connections can be made, or there is a first one that cannot. -/
theorem joinable_or_first_refused (classOf : Id → PortClass Ty) (moduleMap : ModuleMap Id Params)
    (list : List Endpoints) :
    (∀ endpoints ∈ list, Joinable classOf moduleMap endpoints) ∨
      ∃ before endpoints rest error, list = before ++ endpoints :: rest ∧
        (∀ earlier ∈ before, Joinable classOf moduleMap earlier) ∧
        Refused classOf moduleMap endpoints error := by
  induction list with
  | nil => exact .inl nofun
  | cons endpoints list induction =>
      rcases joinable_or_refused classOf moduleMap endpoints with here | ⟨error, refused⟩
      · rcases induction with later | ⟨before, stopped, rest, error, rfl, joinable, refused⟩
        · exact .inl (List.forall_mem_cons.mpr ⟨here, later⟩)
        · exact .inr ⟨endpoints :: before, stopped, rest, error, rfl,
            List.forall_mem_cons.mpr ⟨here, joinable⟩, refused⟩
      · exact .inr ⟨[], endpoints, list, error, rfl, nofun, refused⟩

theorem joinable_of_connectAll {list : List Endpoints} {after : Connections Id}
    (through : connectAll classOf moduleMap connections list = some (.ok after)) :
    ∀ endpoints ∈ list, Joinable classOf moduleMap endpoints := by
  rcases joinable_or_first_refused classOf moduleMap list with joinable | first
  · exact joinable
  · obtain ⟨before, endpoints, rest, error, rfl, joinable, refused⟩ := first
    cases (connectAll_of_refused joinable refused connections rest).symm.trans through

/-- The loop gets through exactly when every connection can be made, whatever was connected before.
Otherwise it stops at the first one that cannot, with what is wrong with it. -/
theorem connectAll_correct (classOf : Id → PortClass Ty) (moduleMap : ModuleMap Id Params)
    (connections : Connections Id) (list : List Endpoints) :
    ((∃ after, connectAll classOf moduleMap connections list = some (.ok after)) ↔
      ∀ endpoints ∈ list, Joinable classOf moduleMap endpoints) ∧
    (∀ stop, connectAll classOf moduleMap connections list = some (.error stop) ↔
      ∃ before rest, list = before ++ stop.endpoints :: rest ∧
        (∀ earlier ∈ before, Joinable classOf moduleMap earlier) ∧
        Refused classOf moduleMap stop.endpoints stop.error) ∧
    connectAll classOf moduleMap connections list ≠ none := by
  rcases joinable_or_first_refused classOf moduleMap list with joinable | first
  · have through := connectAll_of_joinable joinable connections
    refine ⟨iff_of_true ⟨_, through⟩ joinable, fun stop => ?_, ?_⟩
    · rw [through]
      refine iff_of_false nofun ?_
      rintro ⟨before, rest, rfl, -, refused⟩
      exact (joinable stop.endpoints (by simp)).not_refused refused
    · rw [through]
      nofun
  · obtain ⟨before, endpoints, rest, error, rfl, joinable, refused⟩ := first
    have stopped := connectAll_of_refused joinable refused connections rest
    refine ⟨iff_of_false ?_ ?_, fun stop => ⟨fun same => ?_, ?_⟩, ?_⟩
    · rintro ⟨after, through⟩
      cases stopped.symm.trans through
    · intro all
      exact (all endpoints (by simp)).not_refused refused
    · cases stopped.symm.trans same
      exact ⟨before, rest, rfl, joinable, refused⟩
    · rintro ⟨before', rest', same, joinable', refused'⟩
      rw [same]
      exact connectAll_of_refused joinable' refused' connections rest'
    · rw [stopped]
      nofun

end Outcome

end Simo.SimoSim
