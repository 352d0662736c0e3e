import DelayBasedForwarding.Classifier
import Mathlib.Data.List.Nodup

/-!
# Coherence of the classifier and the scheduler

The five vectors are extended by two functions of two modules that call each
other, with indices taken from gate counts.  `Coherent` says that they stay
copies of one list of queues and that the map is exactly the list of the queues
that were created for a delta.  Whatever the order in which deltas first occur,
the scheduler then visits their queues by ascending delta.
-/

namespace DelayBasedForwarding

open SortedMap TransitionRuns

namespace Registry

structure Coherent (registry : Registry) : Prop where
  outGateSize : registry.outGateSize = registry.modules.length
  outputGates : registry.outputGates = gates registry.modules.length
  consumers : registry.consumers = List.range registry.modules.length
  inGateSize : registry.inGateSize = registry.modules.length
  inputGates : registry.inputGates = gates registry.modules.length
  providers : registry.providers = List.range registry.modules.length
  collections : registry.collections = List.range registry.modules.length
  ascending : Ascending registry.deltaQueueMap
  entries : ∀ delta index, (delta, index) ∈ registry.deltaQueueMap ↔
    registry.modules[index]? = some (.delta delta)

variable {registry registry' : Registry} {delta delta' : SimTime} {index index' : Nat}

theorem coherent_prebuilt (count : Nat) : (prebuilt count).Coherent := by
  constructor <;> try simp [prebuilt, gates, Ascending]

namespace Coherent

variable (h : registry.Coherent)
include h

theorem index_lt (hentry : (delta, index) ∈ registry.deltaQueueMap) :
    index < registry.modules.length :=
  (List.getElem?_eq_some_iff.mp ((h.entries delta index).mp hentry)).1

/-- An index belongs to one delta, and a delta has one index. -/
theorem delta_unique (hentry : (delta, index) ∈ registry.deltaQueueMap)
    (hentry' : (delta', index) ∈ registry.deltaQueueMap) : delta = delta' := by
  have heq := ((h.entries delta index).mp hentry).symm.trans ((h.entries delta' index).mp hentry')
  cases heq
  rfl

theorem index_unique (hentry : (delta, index) ∈ registry.deltaQueueMap)
    (hentry' : (delta, index') ∈ registry.deltaQueueMap) : index = index' :=
  congrArg Prod.snd (eq_of_key_eq h.ascending hentry hentry' rfl)

theorem collection (hlt : index < registry.modules.length) :
    registry.collections[index]? = some index := by
  rw [h.collections, List.getElem?_range hlt]

theorem provider (hlt : index < registry.modules.length) :
    registry.providers[index]? = some index := by
  rw [h.providers, List.getElem?_range hlt]

theorem consumer (hlt : index < registry.modules.length) :
    registry.consumers[index]? = some index := by
  rw [h.consumers, List.getElem?_range hlt]

end Coherent

/-- The registry with one more queue, created for `delta`. -/
def extend (registry : Registry) (delta : SimTime) : Registry :=
  let index := registry.modules.length
  let gate : Gate := { index := index, queue := index }
  { modules := registry.modules ++ [QueueName.delta delta],
    deltaQueueMap := insertNew delta index registry.deltaQueueMap,
    outGateSize := index + 1, outputGates := registry.outputGates ++ [gate],
    consumers := registry.consumers ++ [index],
    inGateSize := index + 1, inputGates := registry.inputGates ++ [gate],
    providers := registry.providers ++ [index],
    collections := registry.collections ++ [index] }

theorem coherent_extend (h : registry.Coherent)
    (hnew : ∀ entry ∈ registry.deltaQueueMap, entry.1 ≠ delta) :
    (registry.extend delta).Coherent := by
  have hgates : gates registry.modules.length ++
      [{ index := registry.modules.length, queue := registry.modules.length }] =
      gates (registry.modules.length + 1) := by
    simp [gates, List.range_succ]
  constructor
  · simp [extend]
  · simp [extend, h.outputGates, hgates]
  · simp [extend, h.consumers, List.range_succ]
  · simp [extend]
  · simp [extend, h.inputGates, hgates]
  · simp [extend, h.providers, List.range_succ]
  · simp [extend, h.collections, List.range_succ]
  · exact ascending_insertNew h.ascending
  · intro d i
    constructor
    · intro hmem
      rcases mem_of_mem_insertNew hmem with heq | hmem
      · cases heq
        simp [extend]
      · have hi := h.index_lt hmem
        simp only [extend, List.getElem?_append_left hi]
        exact (h.entries d i).mp hmem
    · intro hmodule
      by_cases hi : i < registry.modules.length
      · simp only [extend, List.getElem?_append_left hi] at hmodule
        exact subset_insertNew ((h.entries d i).mpr hmodule)
      · have hi' : i < (registry.extend delta).modules.length :=
          (List.getElem?_eq_some_iff.mp hmodule).1
        simp only [extend, List.length_append, List.length_singleton] at hi'
        obtain rfl : i = registry.modules.length := by omega
        simp only [extend, List.getElem?_concat_length, Option.some.injEq,
          QueueName.delta.injEq] at hmodule
        subst hmodule
        exact mem_insertNew_self hnew

theorem createDBFQueue_ok (h : registry.Coherent) (delta : SimTime) :
    registry.createDBFQueue delta = .ok (registry.modules.length,
      { registry.extend delta with deltaQueueMap := registry.deltaQueueMap }) := by
  simp [createDBFQueue, addDBFQueue, extend, h.outGateSize, h.inGateSize]

/-- The index of a delta: found in the map, or that of the queue just created. -/
theorem getIndexOfQueueForDelta_cases (h : registry.Coherent) (delta : SimTime) :
    (∃ index, (delta, index) ∈ registry.deltaQueueMap ∧
      registry.getIndexOfQueueForDelta delta = .ok (index, registry)) ∨
    ((∀ entry ∈ registry.deltaQueueMap, entry.1 ≠ delta) ∧
      registry.getIndexOfQueueForDelta delta =
        .ok (registry.modules.length, registry.extend delta)) := by
  unfold getIndexOfQueueForDelta
  cases hfind : registry.deltaQueueMap.find? fun entry => entry.1 == delta with
  | some entry =>
      left
      obtain ⟨d, i⟩ := entry
      have hkey : d = delta := by simpa using List.find?_some hfind
      subst hkey
      exact ⟨i, List.mem_of_find?_eq_some hfind, rfl⟩
  | none =>
      right
      have hnew : ∀ entry ∈ registry.deltaQueueMap, entry.1 ≠ delta := by
        intro entry hentry
        simpa using List.find?_eq_none.mp hfind entry hentry
      refine ⟨hnew, ?_⟩
      simp only [createDBFQueue_ok h]
      rfl

/-- What one classification does to a coherent registry. -/
structure Classified (registry : Registry) (delta : SimTime) (index : Nat)
    (registry' : Registry) : Prop where
  coherent : registry'.Coherent
  entry : (delta, index) ∈ registry'.deltaQueueMap
  kept : registry.deltaQueueMap ⊆ registry'.deltaQueueMap

theorem getIndexOfQueueForDelta_spec (h : registry.Coherent) (delta : SimTime) :
    ∃ index registry', registry.getIndexOfQueueForDelta delta = .ok (index, registry') ∧
      Classified registry delta index registry' := by
  rcases getIndexOfQueueForDelta_cases h delta with ⟨index, hentry, heq⟩ | ⟨hnew, heq⟩
  · exact ⟨index, registry, heq, h, hentry, List.Subset.refl _⟩
  · exact ⟨_, _, heq, coherent_extend h hnew, mem_insertNew_self hnew, subset_insertNew⟩

theorem classifyPacket_ok {par : ClassifierParameters} {packet : Packet}
    (h : registry.Coherent) (hok : registry.classifyPacket par packet = .ok (index, registry')) :
    ∃ delta, packetDelta par packet = some delta ∧ Classified registry delta index registry' := by
  unfold classifyPacket at hok
  cases hdelta : packetDelta par packet with
  | none =>
      rw [hdelta] at hok
      cases hok
  | some delta =>
      rw [hdelta] at hok
      obtain ⟨index'', registry'', heq, hspec⟩ := getIndexOfQueueForDelta_spec h delta
      cases heq.symm.trans hok
      exact ⟨delta, rfl, hspec⟩

/-- The only way in which a classification fails is not to end. -/
theorem classifyPacket_error {par : ClassifierParameters} {packet : Packet}
    {error : ClassifierError} (h : registry.Coherent)
    (herror : registry.classifyPacket par packet = .error error) :
    packetDelta par packet = none ∧ error = .endlessLoop := by
  unfold classifyPacket at herror
  cases hdelta : packetDelta par packet with
  | none =>
      rw [hdelta] at herror
      cases herror
      exact ⟨rfl, rfl⟩
  | some delta =>
      rw [hdelta] at herror
      obtain ⟨_, _, heq, _⟩ := getIndexOfQueueForDelta_spec h delta
      cases heq.symm.trans herror

/-! ## Sequences of classifications -/

/-- A packet is classified and pushed into the queue its consumer index names. -/
def Classify (par : ClassifierParameters) (registry : Registry) (event : Packet × QueueId)
    (registry' : Registry) : Prop :=
  ∃ index, registry.classifyPacket par event.1 = .ok (index, registry') ∧
    registry'.consumers[index]? = some event.2

/-- The queues in the order in which `determineCollection` comes to them. -/
def visitOrder (registry : Registry) : List QueueId :=
  registry.deltaQueueMap.filterMap fun entry => registry.collections[entry.2]?

def VisitedBefore (registry : Registry) (a b : QueueId) : Prop :=
  [a, b].Sublist registry.visitOrder

theorem visitOrder_eq (h : registry.Coherent) :
    registry.visitOrder = registry.deltaQueueMap.map Prod.snd := by
  unfold visitOrder
  rw [← List.filterMap_eq_map]
  apply List.filterMap_congr
  intro entry hentry
  exact h.collection (h.index_lt hentry)

/-- The queue of the smaller delta is visited first. -/
theorem visitedBefore_iff (h : registry.Coherent)
    (hentry : (delta, index) ∈ registry.deltaQueueMap)
    (hentry' : (delta', index') ∈ registry.deltaQueueMap) :
    registry.VisitedBefore index index' ↔ delta < delta' := by
  rw [← pair_sublist_iff h.ascending hentry hentry', VisitedBefore, visitOrder_eq h]
  constructor
  · intro hsub
    obtain ⟨entries, hentries, heq⟩ := List.sublist_map_iff.mp hsub
    obtain ⟨⟨d, i⟩, ⟨d', i'⟩, rfl⟩ : ∃ a b, entries = [a, b] := by
      rcases entries with _ | ⟨a, _ | ⟨b, _ | ⟨c, rest⟩⟩⟩ <;> simp at heq
      exact ⟨a, b, rfl⟩
    simp only [List.map_cons, List.map_nil, List.cons.injEq, and_true] at heq
    obtain ⟨rfl, rfl⟩ := heq
    have ha : (d, index) ∈ registry.deltaQueueMap := hentries.subset (by simp)
    have hb : (d', index') ∈ registry.deltaQueueMap := hentries.subset (by simp)
    rw [h.delta_unique hentry ha, h.delta_unique hentry' hb]
    exact hentries
  · exact fun hsub => hsub.map Prod.snd

variable {par : ClassifierParameters} {start : Registry}
  {history : List (Transition Registry (Packet × QueueId))}

theorem run_coherent (hstart : start.Coherent)
    (hrun : Run (Classify par) start history registry) : registry.Coherent :=
  (hrun.invariant hstart fun _ _ _ h hstep => by
    obtain ⟨index, hok, _⟩ := hstep
    obtain ⟨_, _, hspec⟩ := classifyPacket_ok h hok
    exact hspec.coherent).1

/-- Every packet of a history lies in the queue the map holds for its delta. -/
theorem run_entries (hstart : start.Coherent)
    (hrun : Run (Classify par) start history registry) :
    ∀ x ∈ history, ∃ delta, packetDelta par x.event.1 = some delta ∧
      (delta, x.event.2) ∈ registry.deltaQueueMap := by
  induction hrun with
  | start => simp
  | @next history before after event hrun hstep ih =>
      obtain ⟨index, hok, hconsumer⟩ := hstep
      obtain ⟨delta, hdelta, hspec⟩ := classifyPacket_ok (run_coherent hstart hrun) hok
      intro x hx
      rcases List.mem_append.mp hx with hx | hx
      · obtain ⟨d, hd, hentry⟩ := ih x hx
        exact ⟨d, hd, hspec.kept hentry⟩
      · rw [List.mem_singleton] at hx
        subst hx
        have hindex := hspec.coherent.consumer (hspec.coherent.index_lt hspec.entry)
        rw [hconsumer] at hindex
        cases hindex
        exact ⟨delta, hdelta, hspec.entry⟩

/-- Two packets of a history share a queue if they have one delta, and otherwise
    the queue of the smaller delta is visited first. -/
theorem run_queue_iff (hstart : start.Coherent)
    (hrun : Run (Classify par) start history registry)
    {x y : Transition Registry (Packet × QueueId)} (hx : x ∈ history) (hy : y ∈ history) :
    ∃ delta delta', packetDelta par x.event.1 = some delta ∧
      packetDelta par y.event.1 = some delta' ∧ (x.event.2 = y.event.2 ↔ delta = delta') ∧
      (registry.VisitedBefore x.event.2 y.event.2 ↔ delta < delta') := by
  have h := run_coherent hstart hrun
  obtain ⟨delta, hdelta, hentry⟩ := run_entries hstart hrun x hx
  obtain ⟨delta', hdelta', hentry'⟩ := run_entries hstart hrun y hy
  refine ⟨delta, delta', hdelta, hdelta', ⟨?_, ?_⟩, visitedBefore_iff h hentry hentry'⟩
  · intro hqueue
    rw [← hqueue] at hentry'
    exact h.delta_unique hentry hentry'
  · intro heq
    rw [← heq] at hentry'
    exact h.index_unique hentry hentry'

/-- **Coherence of the registry.**  After any sequence of classifications from
    any number of queues of the NED file:

    * the indices of the map are distinct and valid in all five vectors, which
      hold the same queue there, the one created for the entry's delta;
    * no two queues were created for one delta;
    * the keys of the map, and so the visits of the scheduler, ascend strictly;
    * the index exception is not reached, whatever packet comes next;
    * two packets were pushed into one queue exactly when they have one delta,
      and the scheduler comes to the queue of one before that of the other
      exactly when its delta is smaller;
    * so any other history with the same two packets orders their queues alike. -/
theorem registry_coherence (par : ClassifierParameters) (count : Nat)
    (history : List (Transition Registry (Packet × QueueId))) (registry : Registry)
    (hrun : Run (Classify par) (prebuilt count) history registry) :
    (registry.deltaQueueMap.map Prod.snd).Nodup ∧
    (∀ entry ∈ registry.deltaQueueMap, ∃ (queue : QueueId) (outputGate inputGate : Gate),
      registry.consumers[entry.2]? = some queue ∧
      registry.outputGates[entry.2]? = some outputGate ∧ outputGate.queue = queue ∧
      registry.inputGates[entry.2]? = some inputGate ∧ inputGate.queue = queue ∧
      registry.providers[entry.2]? = some queue ∧
      registry.collections[entry.2]? = some queue ∧
      registry.modules[queue]? = some (.delta entry.1)) ∧
    (∀ delta, ∀ queue queue' : QueueId, registry.modules[queue]? = some (.delta delta) →
      registry.modules[queue']? = some (.delta delta) → queue = queue') ∧
    (registry.deltaQueueMap.map Prod.fst).Pairwise (· < ·) ∧
    (∀ packet consumerIdx providerIdx,
      registry.classifyPacket par packet ≠ .error (.differentIndices consumerIdx providerIdx)) ∧
    (∀ x ∈ history, ∀ y ∈ history, ∃ delta delta',
      packetDelta par x.event.1 = some delta ∧ packetDelta par y.event.1 = some delta' ∧
      (x.event.2 = y.event.2 ↔ delta = delta') ∧
      (registry.VisitedBefore x.event.2 y.event.2 ↔ delta < delta')) ∧
    (∀ count' history' registry', Run (Classify par) (prebuilt count') history' registry' →
      ∀ x ∈ history, ∀ y ∈ history, ∀ x' ∈ history', ∀ y' ∈ history',
        x'.event.1 = x.event.1 → y'.event.1 = y.event.1 →
        (registry'.VisitedBefore x'.event.2 y'.event.2 ↔
          registry.VisitedBefore x.event.2 y.event.2)) := by
  have h := run_coherent (coherent_prebuilt count) hrun
  refine ⟨?_, ?_, ?_, ?_, ?_, ?_, ?_⟩
  · apply List.Nodup.map_on
    · intro a ha b hb heq
      have hdelta : a.1 = b.1 := h.delta_unique ha (by rw [heq]; exact hb)
      exact Prod.ext hdelta heq
    · apply h.ascending.imp
      rintro a _ hlt rfl
      exact lt_irrefl a.1 hlt
  · rintro ⟨delta, index⟩ hentry
    have hlt := h.index_lt hentry
    refine ⟨index, ⟨index, index⟩, ⟨index, index⟩, h.consumer hlt, ?_, rfl, ?_, rfl,
      h.provider hlt, h.collection hlt, (h.entries delta index).mp hentry⟩
    · simp [h.outputGates, gates, hlt]
    · simp [h.inputGates, gates, hlt]
  · intro delta queue queue' hqueue hqueue'
    exact h.index_unique ((h.entries delta queue).mpr hqueue)
      ((h.entries delta queue').mpr hqueue')
  · exact List.pairwise_map.mpr h.ascending
  · intro packet consumerIdx providerIdx herror
    cases (classifyPacket_error h herror).2
  · intro x hx y hy
    exact run_queue_iff (coherent_prebuilt count) hrun hx hy
  · intro count' history' registry' hrun' x hx y hy x' hx' y' hy' hxpacket hypacket
    obtain ⟨delta, delta', hdelta, hdelta', _, hvisited⟩ :=
      run_queue_iff (coherent_prebuilt count) hrun hx hy
    obtain ⟨d, d', hd, hd', _, hvisited'⟩ :=
      run_queue_iff (coherent_prebuilt count') hrun' hx' hy'
    rw [hxpacket, hdelta] at hd
    rw [hypacket, hdelta'] at hd'
    cases hd
    cases hd'
    rw [hvisited, hvisited']

/-! The best-effort packet comes first and its queue is created first, but the
queue of the DBF packet is visited before it. -/

def sampleUrgent : Packet :=
  { bitLength := 800, ipv4Header := none,
    tag := some { dMax := 9, lqBudgetMin := 1, lqBudgetMax := 3 } }

def sampleRest : Packet := { bitLength := 800, ipv4Header := none }

theorem registry_coherence_sample :
    (((prebuilt 1).extend 10).extend 2).VisitedBefore 2 1 := by
  have hfirst : Classify ⟨1, 10⟩ (prebuilt 1) (sampleRest, 1) ((prebuilt 1).extend 10) :=
    ⟨1, by decide +kernel, by decide +kernel⟩
  have hsecond : Classify ⟨1, 10⟩ ((prebuilt 1).extend 10) (sampleUrgent, 2)
      (((prebuilt 1).extend 10).extend 2) :=
    ⟨2, by decide +kernel, by decide +kernel⟩
  have hrun := (Run.start.next hfirst).next hsecond
  obtain ⟨delta, delta', hdelta, hdelta', _, hvisited⟩ :=
    (registry_coherence _ _ _ _ hrun).2.2.2.2.2.1
      ⟨(prebuilt 1).extend 10, (sampleUrgent, 2), ((prebuilt 1).extend 10).extend 2⟩ (by simp)
      ⟨prebuilt 1, (sampleRest, 1), (prebuilt 1).extend 10⟩ (by simp)
  apply hvisited.mpr
  have hurgent : packetDelta ⟨1, 10⟩ sampleUrgent = some 2 := by decide +kernel
  have hrest : packetDelta ⟨1, 10⟩ sampleRest = some 10 := by decide +kernel
  rw [hurgent] at hdelta
  rw [hrest] at hdelta'
  cases hdelta
  cases hdelta'
  decide +kernel

end Registry

end DelayBasedForwarding
