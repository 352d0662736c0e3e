import DelayBasedForwarding.Registry
import Mathlib.Data.List.Perm.Subperm

/-!
# Dynamic modules

`createDynamicModule` adds a submodule to a compound module, alone or as the next
element of a vector, after it has looked for the name.  Whatever is asked for, and in
whatever order, a name then belongs to one module or to the elements 0, 1, ... of one
vector.  The classifier asks for a vector under a new name for each delta, so none of
its queues is refused.
-/

namespace DelayBasedForwarding

open TransitionRuns

/-! ## Submodules -/

structure CModule where
  moduleType : String
  name : String
  vector : Option (Nat × Nat)           -- index and size, of an element of a vector
deriving DecidableEq, Repr

def CModule.index (module : CModule) : Option Nat := module.vector.map Prod.fst

/-- An exception with its text, `none` where the text is undefined. -/
structure CRuntimeError where
  text : Option String
deriving DecidableEq, Repr

/-- What a `printf` format prints without arguments: of two percent signs one, and any
    other directive has nothing to print, which is undefined. -/
def formatted : List Char → Option (List Char)
  | [] => some []
  | '%' :: '%' :: rest => (formatted rest).map fun text => '%' :: text
  | '%' :: _ => none
  | c :: rest => (formatted rest).map fun text => c :: text

/-- The constructor `cRuntimeError(const char *msg, ...)`: the text is a format. -/
def cRuntimeError (msg : String) : CRuntimeError :=
  { text := (formatted msg.toList).map String.ofList }

/-- The string `createErrorMessage` builds. -/
def errorMessage (name nedModulePath reason : String) : String :=
  "Cannot create dynamic module \"" ++ name ++ "\" of type  \"" ++ nedModulePath ++ ": " ++ reason

def createErrorMessage (name nedModulePath reason : String) : CRuntimeError :=
  cRuntimeError (errorMessage name nedModulePath reason)

/-- `parentModule->getSubmodule(name, index)`; without an index, a module that is not in a
    vector. -/
def getSubmodule (parentModule : List CModule) (name : String) (index : Option Nat) :
    Option CModule :=
  parentModule.find? fun module => module.name == name && module.index == index

/-- The loop over `getSubmodule(name, size)`, cut off after `fuel` tests. -/
def sizeLoop (parentModule : List CModule) (name : String) : Nat → Nat → Nat
  | 0, size => size
  | fuel + 1, size =>
      match getSubmodule parentModule name (some size) with
      | some _ => sizeLoop parentModule name fuel (size + 1)
      | none => size

/-- As many tests as the loop needs (`vectorSize_spec`). -/
def vectorSize (parentModule : List CModule) (name : String) : Nat :=
  sizeLoop parentModule name (parentModule.length + 1) 0

/-- A call; `none` is a null pointer. -/
structure ModuleRequest where
  nedModulePath : Option String
  name : Option String
  isVector : Bool
deriving DecidableEq, Repr

/-- `get` is `cModuleType::get`: it finds the type, returns null or throws.  The result is the
    new module and the submodules of its parent. -/
def createDynamicModule (get : String → Except CRuntimeError Bool) (request : ModuleRequest)
    (parentModule : Option (List CModule)) : Except CRuntimeError (CModule × List CModule) :=
  match request.nedModulePath, request.name, parentModule with
  | some nedModulePath, some name, some submodules =>
      match get nedModulePath with
      | .error error => .error error
      | .ok false => .error
          (createErrorMessage name nedModulePath "Can't find module type at given path.")
      | .ok true =>
          if (getSubmodule submodules name none).isSome then
            if request.isVector then
              .error (createErrorMessage name nedModulePath
                "Should be vector but already exists as non vector type.")
            else
              .error (createErrorMessage name nedModulePath
                "SubModule already exists in ParentModule.")
          else
            let size := vectorSize submodules name
            if size ≠ 0 && !request.isVector then
              .error (createErrorMessage name nedModulePath
                "Should be non vector but already exists as vector type.")
            else
              let module : CModule :=
                { moduleType := nedModulePath, name := name,
                  vector := if request.isVector then some (size, size + 1) else none }
              .ok (module, submodules ++ [module])
  | _, _, _ => .error (cRuntimeError "Cannot create dynamic module: Missing Parameters.")

/-! ## Texts -/

section

variable {parentModule : List CModule} {module : CModule} {name nedModulePath : String}

/-- What is there under a name. -/
def named (parentModule : List CModule) (name : String) : List CModule :=
  parentModule.filter fun module => module.name == name

theorem getSubmodule_isSome {index : Option Nat} :
    (getSubmodule parentModule name index).isSome = true ↔
      ∃ module ∈ named parentModule name, module.index = index := by
  unfold getSubmodule named
  rw [List.find?_isSome]
  simp [and_assoc]

theorem sizeLoop_spec : ∀ {fuel size : Nat},
    size ≤ sizeLoop parentModule name fuel size ∧
    (∀ i, size ≤ i → i < sizeLoop parentModule name fuel size →
      (getSubmodule parentModule name (some i)).isSome = true) ∧
    (sizeLoop parentModule name fuel size < size + fuel →
      getSubmodule parentModule name (some (sizeLoop parentModule name fuel size)) = none) := by
  intro fuel
  induction fuel with
  | zero =>
      intro size
      simp only [sizeLoop]
      exact ⟨le_rfl, fun i hle hlt => absurd hlt (not_lt.mpr hle), fun h => absurd h (by omega)⟩
  | succ fuel ih =>
      intro size
      unfold sizeLoop
      cases hget : getSubmodule parentModule name (some size) with
      | none =>
          simp only []
          exact ⟨le_rfl, fun i hle hlt => absurd hlt (not_lt.mpr hle), fun _ => hget⟩
      | some module =>
          obtain ⟨hle, hfound, hend⟩ := @ih (size + 1)
          simp only []
          refine ⟨by omega, fun i hi hlt => ?_, fun hlt => hend (by omega)⟩
          rcases hi.eq_or_lt with rfl | hlater
          · simp [hget]
          · exact hfound i hlater hlt

/-- **The loop ends** at the first index that is not there, since every test before has found
    another submodule. -/
theorem vectorSize_spec (parentModule : List CModule) (name : String) :
    (∀ i < vectorSize parentModule name,
      (getSubmodule parentModule name (some i)).isSome = true) ∧
    getSubmodule parentModule name (some (vectorSize parentModule name)) = none := by
  obtain ⟨_, hfound, hend⟩ := @sizeLoop_spec parentModule name (parentModule.length + 1) 0
  refine ⟨fun i hi => hfound i (Nat.zero_le i) hi, hend ?_⟩
  have hsubset : List.range (vectorSize parentModule name) ⊆
      parentModule.filterMap CModule.index := by
    intro i hi
    obtain ⟨module, hmodule, hindex⟩ :=
      getSubmodule_isSome.mp (hfound i (Nat.zero_le i) (List.mem_range.mp hi))
    exact List.mem_filterMap.mpr ⟨module, (List.mem_filter.mp hmodule).1, hindex⟩
  have hlength := (List.nodup_range.subperm hsubset).length_le
  rw [List.length_range] at hlength
  have hbound := hlength.trans (List.length_filterMap_le CModule.index parentModule)
  unfold vectorSize at hbound
  omega

/-! ## Numbering -/

/-- A name is that of one module that is in no vector, or of the elements 0, 1, ... of one
    vector, in this order. -/
def Numbered (parentModule : List CModule) : Prop :=
  ∀ name, (∃ module, named parentModule name = [module] ∧ module.vector = none) ∨
    (named parentModule name).map CModule.index =
      (List.range (named parentModule name).length).map some

theorem Numbered.vectorSize (h : Numbered parentModule)
    (hnot : ∀ module ∈ named parentModule name, module.vector ≠ none) :
    vectorSize parentModule name = (named parentModule name).length := by
  rcases h name with ⟨module, hnamed, hvector⟩ | hindices
  · exact absurd hvector (hnot module (by simp [hnamed]))
  · obtain ⟨hfound, hend⟩ := vectorSize_spec parentModule name
    have hmem : ∀ i, (getSubmodule parentModule name (some i)).isSome = true ↔
        i < (named parentModule name).length := by
      intro i
      rw [getSubmodule_isSome]
      have hindex : (∃ module ∈ named parentModule name, module.index = some i) ↔
          some i ∈ (named parentModule name).map CModule.index := by simp
      rw [hindex, hindices]
      simp
    apply le_antisymm
    · by_contra hlt
      have := (hmem _).mp (hfound _ (not_le.mp hlt))
      exact lt_irrefl _ this
    · by_contra hlt
      have := (hmem _).mpr (not_le.mp hlt)
      simp [hend] at this

/-- Why a module that has the name stands in the way of a request. -/
def CModule.conflict (module : CModule) (isVector : Bool) : Option String :=
  match module.vector with
  | none => some (if isVector then "Should be vector but already exists as non vector type."
      else "SubModule already exists in ParentModule.")
  | some _ => if isVector then none
      else some "Should be non vector but already exists as vector type."

theorem conflict_of_single (h : module.vector = none) (isVector : Bool) :
    module.conflict isVector =
      some (if isVector then "Should be vector but already exists as non vector type."
        else "SubModule already exists in ParentModule.") := by
  simp [CModule.conflict, h]

theorem conflict_of_element (h : module.vector ≠ none) (isVector : Bool) :
    module.conflict isVector = if isVector then none
      else some "Should be non vector but already exists as vector type." := by
  obtain ⟨place, hplace⟩ := Option.ne_none_iff_exists'.mp h
  simp [CModule.conflict, hplace]

variable {get : String → Except CRuntimeError Bool} {isVector : Bool}

/-- The module a request for a free name, or for one more element, creates. -/
def newModule (parentModule : List CModule) (nedModulePath name : String) (isVector : Bool) :
    CModule :=
  { moduleType := nedModulePath, name := name,
    vector := if isVector then
      some ((named parentModule name).length, (named parentModule name).length + 1) else none }

/-- **One call** is answered by what is there under the name. -/
theorem createDynamicModule_spec (h : Numbered parentModule)
    (hget : get nedModulePath = .ok true) :
    (∃ module ∈ named parentModule name, ∃ reason, module.conflict isVector = some reason ∧
      createDynamicModule get ⟨some nedModulePath, some name, isVector⟩ (some parentModule) =
        .error (createErrorMessage name nedModulePath reason)) ∨
    (∀ module ∈ named parentModule name, module.conflict isVector = none) ∧
      createDynamicModule get ⟨some nedModulePath, some name, isVector⟩ (some parentModule) =
        .ok (newModule parentModule nedModulePath name isVector,
          parentModule ++ [newModule parentModule nedModulePath name isVector]) := by
  have hindex : ∀ module : CModule, module.index = none ↔ module.vector = none := by
    simp [CModule.index]
  simp only [createDynamicModule, hget]
  by_cases hsingle : (getSubmodule parentModule name none).isSome = true
  · left
    obtain ⟨module, hmodule, hvector⟩ := getSubmodule_isSome.mp hsingle
    rw [hindex] at hvector
    refine ⟨module, hmodule, _, conflict_of_single hvector isVector, ?_⟩
    rw [if_pos hsingle]
    cases isVector with
    | false => rfl
    | true => rfl
  · have hnot : ∀ module ∈ named parentModule name, module.vector ≠ none := by
      intro module hmodule hvector
      exact hsingle (getSubmodule_isSome.mpr ⟨module, hmodule, (hindex module).mpr hvector⟩)
    rw [if_neg hsingle, h.vectorSize hnot]
    cases isVector with
    | true =>
        right
        exact ⟨fun module hmodule => conflict_of_element (hnot module hmodule) true,
          by simp [newModule]⟩
    | false =>
        cases hnamed : named parentModule name with
        | nil =>
            right
            exact ⟨by simp, by simp [newModule]⟩
        | cons module rest =>
            left
            have hvector := hnot module (hnamed ▸ List.mem_cons_self)
            exact ⟨module, List.mem_cons_self, _, conflict_of_element hvector false, by simp⟩

theorem named_append_self (h : module.name = name) :
    named (parentModule ++ [module]) name = named parentModule name ++ [module] := by
  simp [named, h]

theorem named_append_of_ne (h : module.name ≠ name) :
    named (parentModule ++ [module]) name = named parentModule name := by
  simp [named, h]

/-- What is created fits in. -/
theorem Numbered.append (h : Numbered parentModule)
    (hfits : ∀ module ∈ named parentModule name, module.conflict isVector = none) :
    Numbered (parentModule ++ [newModule parentModule nedModulePath name isVector]) := by
  intro other
  by_cases hother : name = other
  · subst hother
    have hnew : (newModule parentModule nedModulePath name isVector).name = name := rfl
    rw [named_append_self hnew]
    cases isVector with
    | false =>
        have hempty : named parentModule name = [] := by
          rw [List.eq_nil_iff_forall_not_mem]
          intro module hmodule
          have hnone := hfits module hmodule
          by_cases hvector : module.vector = none
          · simp [conflict_of_single hvector] at hnone
          · simp [conflict_of_element hvector] at hnone
        exact .inl ⟨_, by rw [hempty, List.nil_append], rfl⟩
    | true =>
        right
        rcases h name with ⟨module, hnamed, hvector⟩ | hindices
        · have hnone := hfits module (by simp [hnamed])
          simp [conflict_of_single hvector] at hnone
        · rw [List.map_append, hindices, List.length_append, List.length_singleton,
            List.range_succ, List.map_append]
          rfl
  · have hnew : (newModule parentModule nedModulePath name isVector).name ≠ other := hother
    rw [named_append_of_ne hnew]
    exact h other

end

/-! ## Runs -/

/-- A call and its result; a call that throws leaves the parent as it is. -/
def Creates (get : String → Except CRuntimeError Bool) (parentModule : List CModule)
    (event : ModuleRequest × Except CRuntimeError CModule) (parentModule' : List CModule) : Prop :=
  match createDynamicModule get event.1 (some parentModule) with
  | .ok (module, submodules) => event.2 = .ok module ∧ parentModule' = submodules
  | .error error => event.2 = .error error ∧ parentModule' = parentModule

section

variable {get : String → Except CRuntimeError Bool} {parentModule parentModule' : List CModule}
  {result : Except CRuntimeError CModule}

/-- A request that is complete and for a known type. -/
theorem creates_cases {nedModulePath name : String} {isVector : Bool}
    (h : Numbered parentModule) (hget : get nedModulePath = .ok true)
    (hstep : Creates get parentModule (⟨some nedModulePath, some name, isVector⟩, result)
      parentModule') :
    (∃ module ∈ named parentModule name, ∃ reason, module.conflict isVector = some reason ∧
      result = .error (createErrorMessage name nedModulePath reason) ∧
      parentModule' = parentModule) ∨
    (∀ module ∈ named parentModule name, module.conflict isVector = none) ∧
      result = .ok (newModule parentModule nedModulePath name isVector) ∧
      parentModule' = parentModule ++ [newModule parentModule nedModulePath name isVector] := by
  unfold Creates at hstep
  rcases @createDynamicModule_spec parentModule name nedModulePath get isVector h hget with
    ⟨module, hmodule, reason, hconflict, herror⟩ | ⟨hfits, hok⟩
  · rw [herror] at hstep
    exact .inl ⟨module, hmodule, reason, hconflict, hstep⟩
  · rw [hok] at hstep
    exact .inr ⟨hfits, hstep⟩

/-- Any other request fails. -/
theorem creates_incomplete {request : ModuleRequest}
    (hnot : ∀ nedModulePath name, request.nedModulePath = some nedModulePath →
      request.name = some name → get nedModulePath ≠ .ok true)
    (hstep : Creates get parentModule (request, result) parentModule') :
    (∃ error, result = .error error) ∧ parentModule' = parentModule := by
  obtain ⟨path, name, isVector⟩ := request
  have hfails : ∃ error, createDynamicModule get ⟨path, name, isVector⟩ (some parentModule) =
      .error error := by
    cases path with
    | none => exact ⟨_, rfl⟩
    | some path =>
        cases name with
        | none => exact ⟨_, rfl⟩
        | some name =>
            have hget := hnot path name rfl rfl
            simp only [createDynamicModule]
            cases hresult : get path with
            | error error => exact ⟨error, rfl⟩
            | ok found =>
                cases found with
                | false => exact ⟨_, rfl⟩
                | true => exact absurd hresult hget
  obtain ⟨error, herror⟩ := hfails
  unfold Creates at hstep
  rw [herror] at hstep
  exact ⟨⟨error, hstep.1⟩, hstep.2⟩

theorem Numbered.step (h : Numbered parentModule)
    {event : ModuleRequest × Except CRuntimeError CModule}
    (hstep : Creates get parentModule event parentModule') : Numbered parentModule' := by
  obtain ⟨⟨path, name, isVector⟩, result⟩ := event
  by_cases hcomplete : ∃ nedModulePath name', path = some nedModulePath ∧ name = some name' ∧
      get nedModulePath = .ok true
  · obtain ⟨nedModulePath, name', rfl, rfl, hget⟩ := hcomplete
    rcases creates_cases h hget hstep with ⟨_, _, _, _, _, rfl⟩ | ⟨hfits, _, rfl⟩
    · exact h
    · exact h.append hfits
  · obtain ⟨_, rfl⟩ := creates_incomplete (fun nedModulePath name' hpath hname hget =>
      hcomplete ⟨nedModulePath, name', hpath, hname, hget⟩) hstep
    exact h

end

def dbfPacketQueue : String := "delaybasedforwarding.queueing.queue.DBFPacketQueue"

/-- `"queue(delta=" + delta.str() + ")"`. -/
def queueName (str : SimTime → String) (delta : SimTime) : String :=
  "queue(delta=" ++ str delta ++ ")"

/-- The call in `createDBFQueue`. -/
def queueRequest (str : SimTime → String) (delta : SimTime) : ModuleRequest :=
  { nedModulePath := some dbfPacketQueue, name := some (queueName str delta), isVector := true }

def queueModule (str : SimTime → String) (count : Nat) : QueueName → CModule
  | .queue index => { moduleType := dbfPacketQueue, name := "queue", vector := some (index, count) }
  | .delta delta =>
      { moduleType := dbfPacketQueue, name := queueName str delta, vector := some (0, 1) }

/-- The submodules of the priority queue of an interface, with `count` queues in the NED file. -/
def submodules (str : SimTime → String) (schedulerType : String) (count : Nat)
    (registry : Registry) : List CModule :=
  { moduleType := "delaybasedforwarding.queueing.classifier.DBFPriorityClassifier",
    name := "classifier", vector := none } ::
  { moduleType := schedulerType, name := "scheduler", vector := none } ::
  registry.modules.map (queueModule str count)

section

variable {str : SimTime → String} {schedulerType : String} {count : Nat} {registry : Registry}
  {delta delta' : SimTime}

theorem queueName_inj (h : queueName str delta = queueName str delta') :
    str delta = str delta' := by
  unfold queueName at h
  rwa [String.append_left_inj, String.append_right_inj] at h

/-- The name of a created queue is longer than the others. -/
theorem queueName_ne {name : String} (h : name.length < 13) : name ≠ queueName str delta := by
  intro hname
  rw [hname, queueName, String.length_append, String.length_append] at h
  have hfront : "queue(delta=".length = 12 := rfl
  have hback : ")".length = 1 := rfl
  omega

theorem numbered_prebuilt (str : SimTime → String) (schedulerType : String) (count : Nat) :
    Numbered (submodules str schedulerType count (Registry.prebuilt count)) := by
  intro name
  have hfilter : (Registry.prebuilt count).modules.map (queueModule str count) =
      (List.range count).map fun index => ⟨dbfPacketQueue, "queue", some (index, count)⟩ := by
    simp [Registry.prebuilt, queueModule]
  have hqueues : ((Registry.prebuilt count).modules.map (queueModule str count)).filter
      (fun module => module.name == name) = if "queue" = name then (List.range count).map
        fun index => ⟨dbfPacketQueue, "queue", some (index, count)⟩ else [] := by
    rw [hfilter]
    split
    · next hname => simp [List.filter_eq_self, hname]
    · next hname => simp [List.filter_eq_nil_iff, hname]
  unfold named submodules
  rw [List.filter_cons, List.filter_cons, hqueues]
  by_cases hqueue : "queue" = name
  · subst hqueue
    right
    simp [CModule.index, Function.comp_def]
  · rw [if_neg hqueue]
    by_cases hclassifier : "classifier" = name
    · subst hclassifier
      exact .inl ⟨_, rfl, rfl⟩
    · by_cases hscheduler : "scheduler" = name
      · subst hscheduler
        exact .inl ⟨_, rfl, rfl⟩
      · right
        simp [hclassifier, hscheduler]

theorem submodules_extend :
    submodules str schedulerType count (registry.extend delta) =
      submodules str schedulerType count registry ++ [queueModule str count (.delta delta)] := by
  simp [submodules, Registry.extend]

/-- Nothing has the name of a new delta. -/
theorem named_queueName (h : registry.Coherent)
    (hnew : ∀ entry ∈ registry.deltaQueueMap, str entry.1 ≠ str delta) :
    named (submodules str schedulerType count registry) (queueName str delta) = [] := by
  unfold named
  rw [List.filter_eq_nil_iff]
  intro module hmodule
  rw [beq_iff_eq]
  simp only [submodules, List.mem_cons, List.mem_map] at hmodule
  rcases hmodule with rfl | rfl | ⟨queue, hqueue, rfl⟩
  · exact @queueName_ne str delta "classifier" (by decide)
  · exact @queueName_ne str delta "scheduler" (by decide)
  · cases queue with
    | queue index => exact @queueName_ne str delta "queue" (by decide)
    | delta other =>
        obtain ⟨index, hindex⟩ := List.getElem?_of_mem hqueue
        have hentry := (h.entries other index).mpr hindex
        exact fun hname => hnew _ hentry (queueName_inj hname)

/-- **A queue is created** as the only element of a vector of its own. -/
theorem createDynamicModule_queue {get : String → Except CRuntimeError Bool}
    (hget : get dbfPacketQueue = .ok true) (h : registry.Coherent)
    (hnumbered : Numbered (submodules str schedulerType count registry))
    (hnew : ∀ entry ∈ registry.deltaQueueMap, str entry.1 ≠ str delta) :
    createDynamicModule get (queueRequest str delta)
        (some (submodules str schedulerType count registry)) =
      .ok (queueModule str count (.delta delta),
        submodules str schedulerType count (registry.extend delta)) := by
  have hnone := @named_queueName str schedulerType count registry delta h hnew
  rcases @createDynamicModule_spec _ (queueName str delta) dbfPacketQueue get true hnumbered hget
    with ⟨module, hmodule, _⟩ | ⟨_, hok⟩
  · rw [hnone] at hmodule
    cases hmodule
  · have hmodule : newModule (submodules str schedulerType count registry) dbfPacketQueue
        (queueName str delta) true = queueModule str count (.delta delta) := by
      simp [newModule, hnone, queueModule]
    rw [hmodule] at hok
    rw [submodules_extend]
    exact hok

end

/-- **Queues are never refused.**  In every sequence of classifications, if `str` tells the
    deltas of the queues apart, each classification leaves the queues as they are or creates
    one: `createDynamicModule` finds its name free, does not throw, and the queue for the delta
    of the packet is the only element of a vector of its own. -/
theorem dynamic_queues (get : String → Except CRuntimeError Bool) (str : SimTime → String)
    (schedulerType : String) (par : ClassifierParameters) (count : Nat)
    (history : List (Transition Registry (Packet × QueueId))) (registry : Registry)
    (hget : get dbfPacketQueue = .ok true)
    (hrun : Run (Registry.Classify par) (Registry.prebuilt count) history registry)
    (hstr : ∀ a ∈ registry.deltaQueueMap, ∀ b ∈ registry.deltaQueueMap,
      str a.1 = str b.1 → a.1 = b.1) :
    Numbered (submodules str schedulerType count registry) ∧
    ∀ x ∈ history, x.post = x.pre ∨ ∃ delta, packetDelta par x.event.1 = some delta ∧
      createDynamicModule get (queueRequest str delta)
          (some (submodules str schedulerType count x.pre)) =
        .ok (queueModule str count (.delta delta),
          submodules str schedulerType count x.post) := by
  induction hrun with
  | start => exact ⟨numbered_prebuilt str schedulerType count, by simp⟩
  | @next history registry registry' event hrun hstep ih =>
      have h := Registry.run_coherent (Registry.coherent_prebuilt count) hrun
      obtain ⟨index, hok, _⟩ := hstep
      obtain ⟨delta, hdelta, hspec⟩ := Registry.classifyPacket_ok h hok
      have hstr' : ∀ a ∈ registry.deltaQueueMap, ∀ b ∈ registry.deltaQueueMap,
          str a.1 = str b.1 → a.1 = b.1 :=
        fun a ha b hb => hstr a (hspec.kept ha) b (hspec.kept hb)
      obtain ⟨hnumbered, hbefore⟩ := ih hstr'
      rw [Registry.classifyPacket, hdelta] at hok
      rcases Registry.getIndexOfQueueForDelta_cases h delta with ⟨_, _, hfound⟩ | ⟨hnew, hcreated⟩
      · cases hfound.symm.trans hok
        refine ⟨hnumbered, fun x hx => ?_⟩
        rcases List.mem_append.mp hx with hold | hlast
        · exact hbefore x hold
        · rw [List.mem_singleton] at hlast
          subst hlast
          exact .inl rfl
      · cases hcreated.symm.trans hok
        have hfresh : ∀ entry ∈ registry.deltaQueueMap, str entry.1 ≠ str delta :=
          fun entry hentry hsame =>
            hnew entry hentry (hstr entry (hspec.kept hentry) _ hspec.entry hsame)
        have hcreates := @createDynamicModule_queue str schedulerType count registry delta get
          hget h hnumbered hfresh
        have hstep : Creates get (submodules str schedulerType count registry)
            (queueRequest str delta, .ok (queueModule str count (.delta delta)))
            (submodules str schedulerType count (registry.extend delta)) := by
          unfold Creates
          rw [hcreates]
          exact ⟨rfl, rfl⟩
        refine ⟨hnumbered.step hstep, fun x hx => ?_⟩
        rcases List.mem_append.mp hx with hold | hlast
        · exact hbefore x hold
        · rw [List.mem_singleton] at hlast
          subst hlast
          exact .inr ⟨delta, hdelta, hcreates⟩

/-! A queue for best-effort packets and one for a delta of 2. -/

theorem dynamic_queues_sample :
    createDynamicModule (fun _ => .ok true) (queueRequest (fun delta => toString delta) 2)
        (some (submodules (fun delta => toString delta) "DBFPriorityScheduler" 1
          ((Registry.prebuilt 1).extend 10))) =
      .ok (⟨dbfPacketQueue, "queue(delta=2)", some (0, 1)⟩,
        submodules (fun delta => toString delta) "DBFPriorityScheduler" 1
          (((Registry.prebuilt 1).extend 10).extend 2)) := by
  have hfirst : Registry.Classify ⟨1, 10⟩ (Registry.prebuilt 1) (Registry.sampleRest, 1)
      ((Registry.prebuilt 1).extend 10) := ⟨1, by decide +kernel, by decide +kernel⟩
  have hsecond : Registry.Classify ⟨1, 10⟩ ((Registry.prebuilt 1).extend 10)
      (Registry.sampleUrgent, 2) (((Registry.prebuilt 1).extend 10).extend 2) :=
    ⟨2, by decide +kernel, by decide +kernel⟩
  rcases (dynamic_queues (fun _ => .ok true) (fun delta => toString delta) "DBFPriorityScheduler"
    ⟨1, 10⟩ 1 _ _ rfl ((Run.start.next hfirst).next hsecond) (by decide +kernel)).2
    ⟨(Registry.prebuilt 1).extend 10, (Registry.sampleUrgent, 2),
      ((Registry.prebuilt 1).extend 10).extend 2⟩ (by simp) with hsame | ⟨delta, hdelta, hcreates⟩
  · cases congrArg (fun registry => registry.modules.length) hsame
  · have hurgent : packetDelta ⟨1, 10⟩ Registry.sampleUrgent = some 2 := by decide +kernel
    cases hurgent.symm.trans hdelta
    exact hcreates

end DelayBasedForwarding
