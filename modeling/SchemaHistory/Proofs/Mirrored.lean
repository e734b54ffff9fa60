import SchemaHistory.Proofs.File.Appending
import SchemaHistory.Proofs.File.Growing
import SchemaHistory.Proofs.Memory.Visits
import SchemaHistory.Proofs.StoredLines

/-!
# The same partitions in memory and in files

A partition in memory is a list of entries and a partition in files is a list of lines. They are
the same partition if each line is the text of the entry with its number. A consumer of the one
goes on at an index and a consumer of the other behind some bytes, and they stand beside each
other if these are the bytes of as many lines. Two polls that visit partition after partition
stay in step then: they take the same entries, and the consumers stand beside each other again.
-/

namespace SchemaHistory

open FileLog FileTree Text

/-! ## Topics that are the same -/

/-- How many partitions a topic has. -/
def Topics.partitionCount (T : Topics) (name : String) : Nat := ((Assoc.get? T name).getD []).length

/-- A name that a topic can have in files. -/
structure Nameable (name : String) : Prop where
  legal : isTopicName name = true
  short : name.utf8ByteSize ≤ maxName

/-- The topic has the same partitions in files as in memory, and no others. -/
structure Mirrored (root : Path) (t : FileTree) (T : Topics) (name : String) : Prop where
  listed : partitions root name t = .ok ((List.range (T.partitionCount name)).map fun (p : Nat) =>
    ((p : Int), root ++ [name] ++ [partitionName p]))
  read : ∀ (p : Nat) es, T.entries? name p = some es →
    t.read (root ++ [name] ++ [partitionName p]) = .ok (ended (storedLines es))
  oneLine : ∀ (p : Nat) es, T.entries? name p = some es → OnLines es

/-- A topic that neither has is the same in both. -/
theorem mirrored_absent {root rp : Path} {t : FileTree} {T : Topics} {name : String}
    (hroot : t.find root = .ok (rp, .directory)) (hname : Nameable name)
    (hnone : Assoc.get? t.nodes (rp ++ [name]) = none) (hmemory : Assoc.get? T name = none) :
    Mirrored root t T name := by
  have hfind := find_child hroot (proper_of_isTopicName hname.legal) hname.short
  rw [hnone] at hfind
  have hentries : ∀ q : Int, T.entries? name q = none := fun q => by
    rw [Topics.entries?, hmemory, Option.bind_none]
  refine ⟨?_, fun p es hes => ?_, fun p es hes => ?_⟩
  · rw [partitions, topicPath_eq hname.legal, Topics.partitionCount, hmemory]
    simp only [FileTree.list, hfind]
    rfl
  · rw [hentries] at hes
    cases hes
  · rw [hentries] at hes
    cases hes

/-- The visit of the same partition in files. -/
def MemoryConsumer.Visit.inFiles (root : Path) (v : MemoryConsumer.Visit) : FileLog.Visit :=
  .partition v.topic v.partition (root ++ [v.topic] ++ [partitionName v.partition])

section Visits

variable {root : Path} {t : FileTree} {T : Topics} {name : String}

theorem getElem?_visitsFrom (name : String) (n i : Nat) (ps : List (List Stored)) :
    (MemoryConsumer.visitsFrom name n ps)[i]? = ps[i]?.map fun es => ⟨name, n + i, es⟩ := by
  induction ps generalizing n i with
  | nil => rfl
  | cons es ps ih =>
      cases i with
      | zero => rfl
      | succ i =>
          rw [MemoryConsumer.visitsFrom, List.getElem?_cons_succ, List.getElem?_cons_succ, ih,
            Nat.add_assoc, Nat.add_comm 1 i]

/-- A poll in files comes to the same partitions in the same order. -/
theorem Mirrored.visits (h : Mirrored root t T name) : Visit.ofTopic root t name =
    (MemoryConsumer.visitsFrom name 0 ((Assoc.get? T name).getD [])).map
      (MemoryConsumer.Visit.inFiles root) := by
  rw [Visit.ofTopic, h.listed, Topics.partitionCount]
  generalize (Assoc.get? T name).getD [] = ps
  dsimp only
  refine List.ext_getElem? fun i => ?_
  rw [List.getElem?_map, List.getElem?_map, List.getElem?_map, getElem?_visitsFrom, Nat.zero_add]
  by_cases hi : i < ps.length
  · rw [List.getElem?_range hi, List.getElem?_eq_getElem hi]
    rfl
  · rw [List.getElem?_eq_none (by rw [List.length_range]; omega),
      List.getElem?_eq_none (Nat.le_of_not_lt hi)]
    rfl

theorem visits_inFiles {names : List String} (h : ∀ name ∈ names, Mirrored root t T name) :
    names.flatMap (Visit.ofTopic root t) =
      (MemoryConsumer.visits T names).map (MemoryConsumer.Visit.inFiles root) := by
  rw [MemoryConsumer.visits, List.map_flatMap]
  exact List.flatMap_congr fun name hname => (h name hname).visits

end Visits

/-! ## Consumers beside each other -/

/-- A consumer of a partition with the entries `es` in memory and one of the same partition in files
have begun to read it at neither place, or stand behind the same entries; or the one in memory
has noted where it begins, which the one in files will do when it gets there. -/
inductive Beside (o : ConsumerOptions) (es : List Stored) : Option Nat → Option Cursor → Prop
  | unread : Beside o es none none
  | reading {n : Nat} (hn : n ≤ es.length) :
      Beside o es (some n) (some (behindLines (storedLines (es.take n))))
  | noted : Beside o es (some (o.first es.length)) none

section Beside

variable {o : ConsumerOptions} {es : List Stored} {position : Option Nat} {cursor : Option Cursor}

/-- They go on at the same entry. -/
theorem Beside.start {topic : String} {p : Nat} {positions : Positions} {cursors : Cursors}
    (h : Beside o es (Assoc.get? positions (topic, p)) (Assoc.get? cursors (topic, (p : Int))))
    (hline : OnLines es) : MemoryConsumer.positionIn o topic positions p es ≤ es.length ∧
      Fetch.startIn o cursors (topic, (p : Int)) (ended (storedLines es)) =
        behindLines (storedLines (es.take (MemoryConsumer.positionIn o topic positions p es))) := by
  have hbegin : Fetch.startIn o [] (topic, (p : Int)) (ended (storedLines es)) =
      behindLines (storedLines (es.take (o.first es.length))) := by
    rw [Fetch.startIn, ConsumerOptions.first]
    cases o.start with
    | earliest => rfl
    | latest =>
        dsimp only
        rw [List.take_length]
        exact (lined_storedLines hline).endOf_eq
  rw [MemoryConsumer.positionIn, Fetch.startIn]
  generalize Assoc.get? positions (topic, p) = position at h
  generalize Assoc.get? cursors (topic, (p : Int)) = cursor at h
  cases h with
  | unread => exact ⟨MemoryConsumer.first_le o _, hbegin⟩
  | reading hn => exact ⟨hn, rfl⟩
  | noted => exact ⟨MemoryConsumer.first_le o _, hbegin⟩

/-- Where nothing is read from, a place may be noted in memory alone. -/
theorem Beside.note (h : Beside o es position cursor) :
    Beside o es (some (position.getD (o.first es.length))) cursor := by
  cases h with
  | unread => exact .noted
  | reading hn => exact .reading hn
  | noted => exact .noted

/-- What comes behind the entries does not part consumers that have begun to read. -/
theorem Beside.grown (h : Beside o es position cursor) (new : List Stored)
    (hbegun : o.start = .latest → cursor = none → position = none) :
    Beside o (es ++ new) position cursor := by
  cases h with
  | unread => exact .unread
  | @reading n hn =>
      have htake : es.take n = (es ++ new).take n := (List.take_append_of_le_length hn).symm
      rw [htake]
      refine .reading ?_
      rw [List.length_append]
      omega
  | noted =>
      cases hstart : o.start with
      | latest => cases hbegun hstart rfl
      | earliest =>
          have hfirst : o.first es.length = o.first (es ++ new).length := by
            rw [ConsumerOptions.first, ConsumerOptions.first, hstart]
          rw [hfirst]
          exact .noted

end Beside

/-! ## Polls in step -/

/-- The consumers stand beside each other in every partition. -/
def BesideAll (o : ConsumerOptions) (T : Topics) (positions : Positions) (cursors : Cursors) :
    Prop :=
  ∀ name (p : Nat) es, T.entries? name p = some es →
    Beside o es (Assoc.get? positions (name, p)) (Assoc.get? cursors (name, (p : Int)))

/-- A poll in memory and one in files have taken the same entries. -/
structure InStep (o : ConsumerOptions) (T : Topics) (b : MemoryConsumer.Batch) (f : Fetch) :
    Prop where
  entries : f.entries = b.entries.map Entry.keyless
  room : b.entries.length ≤ o.limit
  /-- The one in files has not failed, and it has ended only if it has enough. -/
  verdict : f.verdict = .goOn ∨ f.verdict = .full ∧ b.entries.length = o.limit
  beside : BesideAll o T b.positions f.cursors

section InStep

variable {o : ConsumerOptions} {T : Topics} {b : MemoryConsumer.Batch} {f : Fetch} {root : Path}
  {t : FileTree} {v : MemoryConsumer.Visit}

/-- A poll in memory that has enough goes on without taking anything. -/
theorem InStep.full (h : InStep o T b f) (hfull : b.entries.length = o.limit)
    (hv : T.entries? v.topic v.partition = some v.entries) :
    InStep o T (b.visit o v) { f with verdict := .full } := by
  have hnothing : o.limit - b.entries.length = 0 := by omega
  have hentries : (b.visit o v).entries = b.entries := by
    rw [MemoryConsumer.entries_visit, hnothing, List.take_zero]
    exact List.append_nil _
  refine ⟨?_, ?_, .inr ⟨rfl, ?_⟩, fun name p es hes => ?_⟩
  · rw [hentries]
    exact h.entries
  · rw [hentries]
    exact h.room
  · rw [hentries]
    exact hfull
  · rw [MemoryConsumer.position_visit, hnothing, List.take_zero]
    by_cases hkey : v.key = (name, p)
    · rw [if_pos hkey]
      obtain ⟨rfl, rfl⟩ : v.topic = name ∧ v.partition = p := Prod.mk.inj hkey
      obtain rfl : v.entries = es := Option.some.inj (hv.symm.trans hes)
      exact (h.beside _ _ _ hes).note
    · rw [if_neg hkey]
      exact h.beside name p es hes

/-- With room for more, both take the same entries behind where they stand. -/
theorem InStep.taken (h : InStep o T b f) (hgo : f.verdict = .goOn)
    (hv : T.entries? v.topic v.partition = some v.entries) (hline : OnLines v.entries) :
    InStep o T (b.visit o v) (f.taken o v.topic v.partition (ended (storedLines v.entries))
      (Fetch.startIn o f.cursors (v.topic, (v.partition : Int))
        (ended (storedLines v.entries)))) := by
  obtain ⟨hn, hstart⟩ := (h.beside v.topic v.partition v.entries hv).start hline
  generalize hposition : MemoryConsumer.positionIn o v.topic b.positions v.partition v.entries = n
    at hn hstart
  have hlength : f.entries.length = b.entries.length := by rw [h.entries, List.length_map]
  have hroom := h.room
  generalize hk : o.limit - b.entries.length = k at hroom
  -- the lines behind the cursor are those of the entries behind the position
  have hlined := lined_storedLines hline
  have hread : readFrom k (behindLines (storedLines (v.entries.take n)))
      (ended (storedLines v.entries)) = (storedLines ((v.entries.drop n).take k),
        behindLines (storedLines (v.entries.take (n + ((v.entries.drop n).take k).length)))) := by
    rw [storedLines_split v.entries n] at hlined
    rw [storedLines_split v.entries n, hlined.readFrom, MemoryConsumer.take_taken]
    simp only [storedLines, List.map_append, List.map_take]
  rw [Fetch.taken, hstart, hlength, hk, hread]
  dsimp only
  refine ⟨?_, ?_, .inl hgo, fun name p es hes => ?_⟩
  · rw [MemoryConsumer.entries_visit, hposition, hk, List.map_append, h.entries, behindLines,
      length_storedLines, List.length_take, Nat.min_eq_left hn, entriesOf_storedLines]
  · rw [MemoryConsumer.entries_visit, hposition, hk, List.length_append,
      MemoryConsumer.length_handOver, List.length_take]
    omega
  · rw [MemoryConsumer.position_visit, hposition, hk, Assoc.get?_put]
    by_cases hkey : v.key = (name, p)
    · rw [if_pos hkey]
      obtain ⟨rfl, rfl⟩ : v.topic = name ∧ v.partition = p := Prod.mk.inj hkey
      obtain rfl : v.entries = es := Option.some.inj (hv.symm.trans hes)
      rw [if_pos rfl]
      refine .reading ?_
      rw [List.length_take, List.length_drop]
      omega
    · rw [if_neg hkey, if_neg]
      · exact h.beside name p es hes
      · intro heq
        obtain ⟨hname, hp⟩ := Prod.mk.inj heq
        exact hkey (Prod.ext hname (Int.ofNat.inj hp))

theorem InStep.visit (h : InStep o T b f)
    (hv : T.entries? v.topic v.partition = some v.entries) (hline : OnLines v.entries)
    (hread : t.read (root ++ [v.topic] ++ [partitionName v.partition]) =
      .ok (ended (storedLines v.entries))) :
    InStep o T (b.visit o v) (f.visit o t (v.inFiles root)) := by
  have hlength : f.entries.length = b.entries.length := by rw [h.entries, List.length_map]
  rcases h.verdict with hgo | ⟨hfull, henough⟩
  · rw [MemoryConsumer.Visit.inFiles, visit_partition o hgo hread, hlength]
    split
    · rename_i hlimit
      exact h.full (Nat.le_antisymm h.room hlimit) hv
    · exact h.taken hgo hv hline
  · have hsame : f = { f with verdict := .full } := by rw [← hfull]
    rw [Fetch.visit_stopped (by rw [hfull]; simp), hsame]
    exact h.full henough hv

/-- **Some visits**, of partitions that are the same. -/
theorem InStep.foldl_visit {vs : List MemoryConsumer.Visit} (h : InStep o T b f)
    (hvs : ∀ v ∈ vs, T.entries? v.topic v.partition = some v.entries ∧
      Mirrored root t T v.topic) :
    InStep o T (vs.foldl (MemoryConsumer.Batch.visit o) b)
      ((vs.map (MemoryConsumer.Visit.inFiles root)).foldl (Fetch.visit o t) f) := by
  induction vs generalizing b f with
  | nil => exact h
  | cons v vs ih =>
      obtain ⟨hv, hmirrored⟩ := hvs v List.mem_cons_self
      exact ih (h.visit hv (hmirrored.oneLine _ _ hv) (hmirrored.read _ _ hv))
        fun w hw => hvs w (List.mem_cons_of_mem v hw)

end InStep

/-! ## One poll -/

section Poll

variable {root : Path} {t : FileTree} {T : Topics} {c : MemoryConsumer} {d : Consumer}

/-- **Polls of consumers beside each other**, in topics that are the same. -/
theorem inStep_fetch (hoptions : d.options = c.options) (htopics : d.topics = c.topics)
    (hmirrored : ∀ name ∈ c.topics, Mirrored root t T name)
    (hbeside : BesideAll c.options T c.positions d.cursors) :
    InStep c.options T (c.fetch T) (d.fetch root t) := by
  rw [MemoryConsumer.fetch_eq, Consumer.fetch_eq, hoptions, htopics, visits_inFiles hmirrored]
  refine InStep.foldl_visit ⟨rfl, Nat.zero_le _, .inl rfl, hbeside⟩ fun v hv => ?_
  obtain ⟨htopic, hentries⟩ := MemoryConsumer.mem_visits.mp hv
  exact ⟨hentries, hmirrored _ htopic⟩

theorem InStep.result {o : ConsumerOptions} {b : MemoryConsumer.Batch} {f : Fetch}
    (h : InStep o T b f) : f.result = .ok (b.entries.map Entry.keyless) := by
  rw [Fetch.result, ← h.entries]
  rcases h.verdict with hgo | ⟨hfull, -⟩
  · rw [hgo]
  · rw [hfull]

/-- A poll that hands over nothing has come to every partition of its topics, and begun to read it. -/
theorem InStep.begun (h : InStep c.options T (c.fetch T) (d.fetch root t))
    (hoptions : d.options = c.options) (htopics : d.topics = c.topics)
    (hmirrored : ∀ name ∈ c.topics, Mirrored root t T name) (hlimit : 0 < c.options.limit)
    (hnothing : (c.fetch T).entries = []) {name : String} {p : Nat} {es : List Stored}
    (hname : name ∈ c.topics) (hes : T.entries? name p = some es) :
    Assoc.get? (d.fetch root t).cursors (name, (p : Int)) ≠ none := by
  have hgo : (d.fetch root t).verdict = .goOn := by
    rcases h.verdict with hgo | ⟨-, hfull⟩
    · exact hgo
    · rw [hnothing] at hfull
      exact absurd hfull (Nat.ne_of_lt hlimit)
  rw [Consumer.fetch_eq, hoptions, htopics, visits_inFiles hmirrored] at hgo ⊢
  generalize hvs : (MemoryConsumer.visits T c.topics).map (MemoryConsumer.Visit.inFiles root) = vs
    at hgo ⊢
  have hall : vs = [] ++ (vs ++ []) := by rw [List.nil_append, List.append_nil]
  have hprogress := (Fetch.progress_start c.options t vs d.cursors).foldl rfl hall hgo
  refine hprogress.seen name p (root ++ [name] ++ [partitionName p]) ?_
  rw [List.nil_append, ← hvs]
  exact List.mem_map.mpr ⟨⟨name, p, es⟩, MemoryConsumer.mem_visits.mpr ⟨hname, hes⟩, rfl⟩

end Poll

/-! ## One append -/

namespace Topics

variable {T : Topics} {topic : String} {p : Int} {es : List Stored}

/-- **An append to a partition that is there** comes behind its entries, and everything else stays as
it is. -/
theorem append_there (hes : T.entries? topic p = some es) (e : Stored) :
    ∃ T', T.append topic p e = (.ok es.length, T') ∧
      (∀ other q, T'.entries? other q = if (other, q) = (topic, p) then some (es ++ [e])
        else T.entries? other q) ∧
      ∀ name, T'.partitionCount name = T.partitionCount name := by
  obtain ⟨ps, i, hps, rfl, hi⟩ := entries?_eq_some.mp hes
  have hlt : (i : Int).toNat < ps.length := (List.getElem?_eq_some_iff.mp hi).1
  refine ⟨Assoc.put topic (ps.set (i : Int).toNat (es ++ [e])) T, ?_,
    entries?_put hps (Int.natCast_nonneg i) hlt _, fun name => ?_⟩
  · unfold append
    dsimp only
    rw [create_of_some hps, hes, hps]
    rfl
  · rw [partitionCount, partitionCount, Assoc.get?_put]
    split
    · rename_i hname
      rw [← hname, hps]
      exact List.length_set
    · rfl

end Topics

section Append

variable {root rp : Path} {t t' : FileTree} {T T' : Topics} {topic name : String} {p : Nat}
  {es : List Stored} {e : Stored}

theorem partitions_nodes (hnodes : t'.nodes = t.nodes) :
    partitions root name t' = partitions root name t := by
  rw [partitions, partitions]
  simp only [FileTree.list, find_nodes hnodes, hnodes]

/-- What can be read can be read as long as it stands there. -/
theorem read_of_nodes (hnodes : t'.nodes = t.nodes) {path : Path} {bs : Bytes}
    (h : t.read path = .ok bs) : ∃ bs', t'.read path = .ok bs' := by
  rw [FileTree.read] at h ⊢
  rw [find_nodes hnodes]
  cases hfind : t.find path with
  | error e =>
      rw [hfind] at h
      cases h
  | ok q =>
      rw [hfind] at h
      obtain ⟨path', node⟩ := q
      cases node with
      | directory => cases h
      | file k => exact ⟨_, rfl⟩
      | nullDevice => exact ⟨_, rfl⟩

theorem partitionBytes_of_read (hlegal : isTopicName name = true) {bs : Bytes}
    (h : t.read (root ++ [name] ++ [partitionName p]) = .ok bs) :
    partitionBytes root t (name, (p : Int)) = bs := by
  rw [partitionBytes, partitionPath_topic hlegal (Int.natCast_nonneg p)]
  dsimp only
  rw [h]
  rfl

theorem onSpot_of_readable (hroot : t.find root = .ok (rp, .directory)) (hsound : t.Sound)
    {key : PartitionKey} (hfits : Fits key) {bs : Bytes}
    (h : t.read (root ++ [key.1] ++ [partitionName key.2]) = .ok bs) : ∃ k, OnSpot t rp key k := by
  have hfind := h
  rw [FileTree.read, find_partition hroot hfits] at hfind
  cases hn : Assoc.get? t.nodes (rp ++ [key.1]) with
  | none =>
      rw [hn] at hfind
      cases hfind
  | some n =>
      rw [hn] at hfind
      cases n with
      | directory => exact onSpot_of_read hroot hsound hfits.legal hfits.topic hn hfits.number h
      | file k => cases hfind
      | nullDevice => cases hfind

end Append

/-- The entry `e` has come to a partition in memory and to the same one in files, behind the entries
`es`, and nothing else has changed. -/
structure Appended (root : Path) (key : PartitionKey) (es : List Stored) (e : Stored)
    (t t' : FileTree) (T T' : Topics) : Prop where
  there : T.entries? key.1 key.2 = some es
  entries : ∀ name p, T'.entries? name p = if (name, p) = key then some (es ++ [e])
    else T.entries? name p
  count : ∀ name, T'.partitionCount name = T.partitionCount name
  nodes : t'.nodes = t.nodes
  bytes : ∀ other, partitionBytes root t' other = partitionBytes root t other ++
    if other = key then utf8 e.payload ++ [lineFeed] else []

section Appended

variable {root : Path} {key : PartitionKey} {es : List Stored} {e : Stored} {t t' : FileTree}
  {T T' : Topics} {name : String}

/-- A topic stays the same. -/
theorem Appended.mirrored (h : Appended root key es e t t' T T') (hline : '\n' ∉ e.payload.toList)
    (hlegal : isTopicName name = true) (hname : Mirrored root t T name) :
    Mirrored root t' T' name := by
  refine ⟨?_, fun q es' hes' => ?_, fun q es' hes' => ?_⟩
  · rw [partitions_nodes h.nodes, h.count]
    exact hname.listed
  · rw [h.entries] at hes'
    by_cases hkey : (name, (q : Int)) = key
    · subst hkey
      rw [if_pos rfl] at hes'
      cases hes'
      have hread := hname.read q es h.there
      obtain ⟨bs, hbs⟩ := read_of_nodes h.nodes hread
      rw [hbs, ← partitionBytes_of_read hlegal hbs, h.bytes, if_pos rfl,
        partitionBytes_of_read hlegal hread, ended_storedLines_concat]
    · rw [if_neg hkey] at hes'
      have hread := hname.read q es' hes'
      obtain ⟨bs, hbs⟩ := read_of_nodes h.nodes hread
      rw [hbs, ← partitionBytes_of_read hlegal hbs, h.bytes, if_neg hkey,
        partitionBytes_of_read hlegal hread, List.append_nil]
  · rw [h.entries] at hes'
    by_cases hkey : (name, (q : Int)) = key
    · subst hkey
      rw [if_pos rfl] at hes'
      cases hes'
      intro e' he'
      rcases List.mem_append.mp he' with he' | he'
      · exact hname.oneLine q es h.there e' he'
      · rw [List.mem_singleton.mp he']
        exact hline
    · rw [if_neg hkey] at hes'
      exact hname.oneLine q es' hes'

/-- Consumers that have begun to read the partition, or have not noted where they will, stay beside
each other. -/
theorem Appended.beside (h : Appended root key es e t t' T T') {o : ConsumerOptions}
    {positions : Positions} {cursors : Cursors} (hbeside : BesideAll o T positions cursors)
    (hbegun : ∀ p : Nat, key.2 = p → o.start = .latest →
      Assoc.get? cursors key = none → Assoc.get? positions (key.1, p) = none) :
    BesideAll o T' positions cursors := by
  intro name q es' hes'
  rw [h.entries] at hes'
  by_cases hkey : (name, (q : Int)) = key
  · subst hkey
    rw [if_pos rfl] at hes'
    cases hes'
    exact (hbeside name q es h.there).grown [e] (hbegun q rfl)
  · rw [if_neg hkey] at hes'
    exact hbeside name q es' hes'

end Appended

end SchemaHistory
