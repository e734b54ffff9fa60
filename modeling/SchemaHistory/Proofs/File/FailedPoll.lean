import SchemaHistory.Proofs.File.Partition

/-!
# Polls that fail

A poll visits the partitions of its topics one after another, and it ends with the first one
that it cannot read. The entries that it had read by then are dropped, but their partitions
count as read. So a failed poll leaves the consumer where it was exactly when there was
nothing to read in any partition before the one that failed; otherwise what was read before
the failure is not handed over by any later poll.
-/

namespace SchemaHistory.FileLog

open Text

/-! ## What a poll visits -/

/-- What a poll comes to. -/
inductive Visit
  /-- A file that is named like a partition. -/
  | partition (topic : String) (number : Int) (path : Path)
  /-- A topic whose partitions cannot be listed. -/
  | unlisted (error : BrokerError)

namespace Visit

/-- Why the poll fails there, if it does. -/
def fault? (t : FileTree) : Visit → Option BrokerError
  | .partition _ _ path =>
    match t.read path with
    | .error e => some (.io e.message)
    | .ok _ => none
  | .unlisted e => some e

/-- The bytes that are found there, if it is the partition under the key. -/
def bytes? (t : FileTree) (key : String × Int) : Visit → Option Bytes
  | .partition topic number path =>
    if (topic, number) = key then (t.read path).toOption else none
  | .unlisted _ => none

/-- The partition can be read, and there is a whole line in it behind the position. -/
def HasLine (t : FileTree) (position : String × Int → Cursor) : Visit → Prop
  | .partition topic number path =>
    ∃ bs, t.read path = .ok bs ∧ lineFeed ∈ bs.drop (position (topic, number)).byte
  | .unlisted _ => False

/-- What a poll comes to in one topic. -/
def ofTopic (root : Path) (t : FileTree) (topic : String) : List Visit :=
  match partitions root topic t with
  | .error e => [.unlisted e]
  | .ok ps => ps.map fun p => .partition topic p.1 p.2

end Visit

/-- Where a consumer goes on reading: at its cursor, and without one at the start of a partition or
behind what the first file that is visited for it holds. -/
def positionIn (o : ConsumerOptions) (t : FileTree) (vs : List Visit) (cursors : Cursors)
    (key : String × Int) : Cursor :=
  (Assoc.get? cursors key).getD
    (match o.start with
      | .earliest => .zero
      | .latest => endOf ((vs.findSome? (Visit.bytes? t key)).getD []))

namespace Consumer

/-- What a poll comes to, if nothing ends it. A consumer that was closed visits nothing. -/
def visits (root : Path) (t : FileTree) (c : Consumer) : List Visit :=
  if c.closed then [] else c.topics.flatMap (Visit.ofTopic root t)

/-- What a poll comes to before the first failure. -/
def passed (root : Path) (t : FileTree) (c : Consumer) : List Visit :=
  (c.visits root t).takeWhile fun v => (v.fault? t).isNone

/-- Where the consumer goes on reading. -/
def position (root : Path) (t : FileTree) (c : Consumer) : String × Int → Cursor :=
  positionIn c.options t (c.visits root t) c.cursors

/-- What a poll reads, whether it hands it over or not. -/
def fetched (root : Path) (t : FileTree) (c : Consumer) : List Entry :=
  if c.closed then [] else (c.fetch root t).entries

/-- What polls hand over, one on each of some trees. -/
def polled (root : Path) (c : Consumer) : List FileTree → List Entry
  | [] => []
  | t :: ts => Replay.entriesOf (c.poll root t).1 ++ polled root (c.poll root t).2 ts

end Consumer

namespace Fetch

/-- A poll goes on with one visit. -/
def visit (o : ConsumerOptions) (t : FileTree) (f : Fetch) : Visit → Fetch
  | .partition topic number path => readPartition o t topic f (number, path)
  | .unlisted e =>
    match f.verdict with
    | .goOn => { f with verdict := .failed e }
    | _ => f

variable {o : ConsumerOptions} {t : FileTree}

theorem visit_stopped {f : Fetch} (h : f.verdict ≠ .goOn) (v : Visit) : f.visit o t v = f := by
  cases v with
  | partition topic number path =>
      rw [visit, readPartition]
      split
      · rfl
      · rfl
      · exact absurd (by assumption) h
  | unlisted e =>
      rw [visit]
      split
      · exact absurd (by assumption) h
      · rfl

theorem foldl_visit_stopped {f : Fetch} (h : f.verdict ≠ .goOn) (vs : List Visit) :
    vs.foldl (visit o t) f = f := by
  induction vs with
  | nil => rfl
  | cons v vs ih => rw [List.foldl_cons, visit_stopped h, ih]

/-- **One visit** fails, or finds the poll to have enough, or reads a partition. -/
theorem visit_cases {f : Fetch} (h : f.verdict = .goOn) (v : Visit) :
    (∃ e, v.fault? t = some e ∧ f.visit o t v = { f with verdict := .failed e }) ∨
    (o.limit ≤ f.entries.length ∧ f.visit o t v = { f with verdict := .full }) ∨
    ∃ topic number path bs, v = .partition topic number path ∧ t.read path = .ok bs ∧
      f.entries.length < o.limit ∧
      f.visit o t v = f.taken o topic number bs (startIn o f.cursors (topic, number) bs) := by
  cases v with
  | unlisted e =>
      refine .inl ⟨e, rfl, ?_⟩
      rw [visit, h]
  | partition topic number path =>
      rw [visit]
      by_cases hfull : o.limit ≤ f.entries.length
      · rw [readPartition, h]
        dsimp only
        rw [if_pos hfull]
        exact .inr (.inl ⟨hfull, rfl⟩)
      · cases hread : t.read path with
        | error e =>
            refine .inl ⟨.io e.message, ?_, ?_⟩
            · rw [Visit.fault?, hread]
            · rw [readPartition, h]
              dsimp only
              rw [if_neg hfull, hread]
        | ok bs =>
            exact .inr (.inr ⟨topic, number, path, bs, rfl, hread, Nat.lt_of_not_le hfull,
              readPartition_taken h (Nat.lt_of_not_le hfull) hread⟩)

theorem readTopic_eq (root : Path) (f : Fetch) (topic : String) :
    readTopic o root t f topic = (Visit.ofTopic root t topic).foldl (visit o t) f := by
  by_cases h : f.verdict = .goOn
  · rw [readTopic, h, Visit.ofTopic]
    dsimp only
    cases partitions root topic t with
    | error e =>
        dsimp only
        rw [List.foldl_cons, List.foldl_nil, visit, h]
    | ok ps =>
        dsimp only
        rw [List.foldl_map]
        rfl
  · rw [foldl_visit_stopped h, readTopic]
    split
    · rfl
    · rfl
    · exact absurd (by assumption) h

end Fetch

theorem Consumer.fetch_eq (root : Path) (t : FileTree) (c : Consumer) : c.fetch root t =
    (c.topics.flatMap (Visit.ofTopic root t)).foldl (Fetch.visit c.options t)
      ⟨[], c.cursors, .goOn⟩ := by
  rw [Consumer.fetch, List.foldl_flatMap]
  congr 1
  funext f topic
  exact Fetch.readTopic_eq root f topic

/-! ## Up to the failure -/

namespace Fetch

variable {o : ConsumerOptions} {t : FileTree}

/-- A poll that failed did so at a visit; those before it went well, and nothing was read after
them. -/
theorem foldl_visit_failed {vs : List Visit} {f : Fetch} (hf : f.verdict = .goOn) {e : BrokerError}
    (h : (vs.foldl (visit o t) f).verdict = .failed e) :
    ∃ before v after, vs = before ++ v :: after ∧ v.fault? t = some e ∧
      (∀ u ∈ before, u.fault? t = none) ∧ (before.foldl (visit o t) f).verdict = .goOn ∧
      vs.foldl (visit o t) f = { before.foldl (visit o t) f with verdict := .failed e } := by
  induction vs generalizing f with
  | nil =>
      rw [List.foldl_nil, hf] at h
      cases h
  | cons v vs ih =>
      rw [List.foldl_cons] at h ⊢
      rcases visit_cases (o := o) (t := t) hf v with ⟨e', hfault, hvisit⟩ | ⟨-, hvisit⟩ |
        ⟨topic, number, path, bs, rfl, hread, -, hvisit⟩
      · -- it failed here, and the rest is not visited
        have hstop : (f.visit o t v).verdict ≠ .goOn := by
          rw [hvisit]
          simp
        rw [foldl_visit_stopped hstop, hvisit] at h ⊢
        cases h
        exact ⟨[], v, vs, rfl, hfault, by simp, hf, rfl⟩
      · -- it had enough, and such a poll does not fail
        have hstop : (f.visit o t v).verdict ≠ .goOn := by
          rw [hvisit]
          simp
        rw [foldl_visit_stopped hstop, hvisit] at h
        cases h
      · have hgo : (f.visit o t (.partition topic number path)).verdict = .goOn := by
          rw [hvisit]
          exact hf
        obtain ⟨before, w, after, hsplit, hfault, hbefore, hverdict, hfold⟩ := ih hgo h
        refine ⟨.partition topic number path :: before, w, after, ?_, hfault, ?_, hverdict, hfold⟩
        · rw [hsplit]
          rfl
        · intro u hu
          rcases List.mem_cons.mp hu with rfl | hu
          · rw [Visit.fault?, hread]
          · exact hbefore u hu

/-- What a poll that started from `cursors` has done after the visits `done` of `vs`. -/
structure Progress (o : ConsumerOptions) (t : FileTree) (vs : List Visit) (cursors : Cursors)
    (done : List Visit) (f : Fetch) : Prop where
  /-- Every partition that was visited has a cursor. -/
  seen : ∀ topic number path, .partition topic number path ∈ done →
    Assoc.get? f.cursors (topic, number) ≠ none
  /-- No position went back. -/
  ahead : ∀ key, (positionIn o t vs cursors key).byte ≤ (positionIn o t vs f.cursors key).byte
  /-- A poll that has read nothing has moved nothing, and there was nothing to read. -/
  kept : f.entries = [] → (∀ key, positionIn o t vs f.cursors key = positionIn o t vs cursors key) ∧
    ∀ u ∈ done, ¬ u.HasLine t (positionIn o t vs cursors)
  /-- A poll that has read something has moved on, and there was something to read. -/
  moved : f.entries ≠ [] →
    (∃ key, (positionIn o t vs cursors key).byte < (positionIn o t vs f.cursors key).byte) ∧
    ∃ u ∈ done, u.HasLine t (positionIn o t vs cursors)

section Progress

variable {vs done : List Visit} {cursors : Cursors} {f : Fetch}

theorem progress_start (o : ConsumerOptions) (t : FileTree) (vs : List Visit) (cursors : Cursors) :
    Progress o t vs cursors [] ⟨[], cursors, .goOn⟩ :=
  ⟨fun _ _ _ h => (List.not_mem_nil h).elim, fun _ => Nat.le_refl _,
    fun _ => ⟨fun _ => rfl, fun _ h => (List.not_mem_nil h).elim⟩, fun h => absurd rfl h⟩

theorem positionIn_put (key k : String × Int) (c : Cursor) :
    positionIn o t vs (Assoc.put key c cursors) k =
      if key = k then c else positionIn o t vs cursors k := by
  rw [positionIn, Assoc.get?_put]
  split
  · rfl
  · rfl

/-- A partition is read from the position of the consumer. -/
theorem Progress.start (h : Progress o t vs cursors done f) {topic : String} {number : Int}
    {path : Path} {bs : Bytes} {rest : List Visit}
    (hvs : vs = done ++ .partition topic number path :: rest) (hread : t.read path = .ok bs) :
    startIn o f.cursors (topic, number) bs = positionIn o t vs f.cursors (topic, number) := by
  rw [startIn, positionIn]
  cases hc : Assoc.get? f.cursors (topic, number) with
  | some c => rfl
  | none =>
      -- it was not visited yet, so this is the first file that is visited for it
      have hdone : done.findSome? (Visit.bytes? t (topic, number)) = none := by
        rw [List.findSome?_eq_none_iff]
        intro u hu
        cases u with
        | unlisted e => rfl
        | partition topic' number' path' =>
            rw [Visit.bytes?, if_neg]
            intro he
            have := h.seen topic' number' path' hu
            rw [he] at this
            exact this hc
      have hfirst : vs.findSome? (Visit.bytes? t (topic, number)) = some bs := by
        rw [hvs, List.findSome?_append, hdone, Option.none_or, List.findSome?_cons, Visit.bytes?,
          if_pos rfl, hread]
        rfl
      rw [hfirst]
      rfl

/-- A partition that is read has another position then, and no other partition has. -/
theorem positionIn_taken (vs : List Visit) (f : Fetch) (topic : String) (number : Int) (bs : Bytes)
    (start : Cursor) (k : String × Int) :
    positionIn o t vs (f.taken o topic number bs start).cursors k =
      if (topic, number) = k then (readFrom (o.limit - f.entries.length) start bs).2
      else positionIn o t vs f.cursors k := positionIn_put _ k _

/-- A poll with room for entries gets none only where there is no line. -/
theorem taken_eq_nil (hroom : f.entries.length < o.limit) (topic : String) (number : Int)
    (bs : Bytes) (start : Cursor) : (f.taken o topic number bs start).entries = [] ↔
      f.entries = [] ∧ lineFeed ∉ bs.drop start.byte := by
  rw [← readFrom_eq_nil (Nat.sub_pos_of_lt hroom), taken, List.append_eq_nil_iff,
    ← List.length_eq_zero_iff (l := entriesOf ..), length_entriesOf, List.length_eq_zero_iff]

theorem Progress.reads (h : Progress o t vs cursors done f) {topic : String} {number : Int}
    {path : Path} {bs : Bytes} {rest : List Visit}
    (hvs : vs = done ++ .partition topic number path :: rest) (hread : t.read path = .ok bs)
    (hroom : f.entries.length < o.limit) :
    Progress o t vs cursors (done ++ [.partition topic number path])
      (f.taken o topic number bs (startIn o f.cursors (topic, number) bs)) := by
  rw [h.start hvs hread]
  generalize hstart : positionIn o t vs f.cursors (topic, number) = start
  have hentries := taken_eq_nil hroom topic number bs start
  have hposition := positionIn_taken (o := o) (t := t) vs f topic number bs start
  have hahead : ∀ k, (positionIn o t vs f.cursors k).byte ≤
      (positionIn o t vs (f.taken o topic number bs start).cursors k).byte := by
    intro k
    rw [hposition]
    split
    · rename_i hk
      rw [← hk, hstart]
      exact (readFrom_onward _ _ _).1
    · exact Nat.le_refl _
  -- what the position was before the poll, if nothing was read before
  have hbefore : f.entries = [] → positionIn o t vs cursors (topic, number) = start := by
    intro hf
    rw [← hstart, (h.kept hf).1]
  refine ⟨fun topic' number' path' hu => ?_, fun k => Nat.le_trans (h.ahead k) (hahead k),
    fun hf => ?_, fun hf => ?_⟩
  · show Assoc.get? (Assoc.put (topic, number) _ f.cursors) (topic', number') ≠ none
    rw [Assoc.get?_put]
    split
    · simp
    · rename_i hne
      rcases List.mem_append.mp hu with hu | hu
      · exact h.seen topic' number' path' hu
      · cases List.mem_singleton.mp hu
        exact absurd rfl hne
  · obtain ⟨hf, hline⟩ := hentries.mp hf
    obtain ⟨hkept, hdone⟩ := h.kept hf
    refine ⟨fun k => ?_, fun u hu => ?_⟩
    · rw [hposition]
      split
      · rename_i hk
        rw [← hk, hbefore hf, readFrom_stays (Nat.sub_pos_of_lt hroom) hline]
      · exact hkept k
    · rcases List.mem_append.mp hu with hu | hu
      · exact hdone u hu
      · rw [List.mem_singleton.mp hu]
        rintro ⟨bs', hread', hmem⟩
        rw [hread] at hread'
        cases hread'
        rw [hbefore hf] at hmem
        exact hline hmem
  · by_cases hold : f.entries = []
    · -- this partition is the first with something to read
      have hline : lineFeed ∈ bs.drop start.byte := by
        by_cases hmem : lineFeed ∈ bs.drop start.byte
        · exact hmem
        · exact absurd (hentries.mpr ⟨hold, hmem⟩) hf
      refine ⟨⟨(topic, number), ?_⟩, .partition topic number path, by simp, bs, hread, ?_⟩
      · rw [hposition, if_pos rfl, hbefore hold]
        exact readFrom_moves (Nat.sub_pos_of_lt hroom) hline
      · rw [hbefore hold]
        exact hline
    · obtain ⟨⟨k, hk⟩, u, hu, hline⟩ := h.moved hold
      exact ⟨⟨k, Nat.lt_of_lt_of_le hk (hahead k)⟩, u, List.mem_append_left _ hu, hline⟩

/-- A poll that goes on has progressed by what it visited. -/
theorem Progress.foldl (h : Progress o t vs cursors done f) (hf : f.verdict = .goOn)
    {more rest : List Visit} (hvs : vs = done ++ (more ++ rest))
    (hgo : (more.foldl (visit o t) f).verdict = .goOn) :
    Progress o t vs cursors (done ++ more) (more.foldl (visit o t) f) := by
  induction more generalizing done f with
  | nil =>
      rw [List.append_nil]
      exact h
  | cons v more ih =>
      rw [List.foldl_cons] at hgo ⊢
      have hv : (f.visit o t v).verdict = .goOn := by
        by_cases hv : (f.visit o t v).verdict = .goOn
        · exact hv
        · rwa [foldl_visit_stopped hv] at hgo
      rcases visit_cases (o := o) (t := t) hf v with ⟨e, -, hvisit⟩ | ⟨-, hvisit⟩ |
        ⟨topic, number, path, bs, rfl, hread, hroom, hvisit⟩
      · rw [hvisit] at hv
        cases hv
      · rw [hvisit] at hv
        cases hv
      · have htaken := h.reads (by rw [hvs]; rfl) hread hroom
        rw [← hvisit] at htaken
        have hall := ih htaken hv (by rw [hvs]; simp) hgo
        rwa [List.append_assoc] at hall

/-- A poll has read nothing exactly if there was nothing to read. -/
theorem Progress.eq_nil_iff (h : Progress o t vs cursors done f) :
    f.entries = [] ↔ ∀ u ∈ done, ¬ u.HasLine t (positionIn o t vs cursors) := by
  refine ⟨fun hf => (h.kept hf).2, fun hlines => ?_⟩
  by_cases hf : f.entries = []
  · exact hf
  · obtain ⟨-, u, hu, hline⟩ := h.moved hf
    exact absurd hline (hlines u hu)

/-- A poll has read nothing exactly if every position is what it was. -/
theorem Progress.eq_nil_iff_kept (h : Progress o t vs cursors done f) : f.entries = [] ↔
    ∀ key, positionIn o t vs f.cursors key = positionIn o t vs cursors key := by
  refine ⟨fun hf => (h.kept hf).1, fun hkept => ?_⟩
  by_cases hf : f.entries = []
  · exact hf
  · obtain ⟨⟨key, hlt⟩, -⟩ := h.moved hf
    rw [hkept key] at hlt
    exact absurd hlt (Nat.lt_irrefl _)

end Progress

/-! ## Behind the cursors -/

/-- What a poll that started from `cursors` has read is behind them, and before the cursors that it
has now. -/
structure Between (cursors : Cursors) (f : Fetch) : Prop where
  /-- No cursor went back. -/
  onward : ∀ key c, Assoc.get? cursors key = some c →
    ∃ c', Assoc.get? f.cursors key = some c' ∧ c.offset ≤ c'.offset
  /-- Entries are behind the cursors of the start. -/
  behind : ∀ e ∈ f.entries, ∀ c, Assoc.get? cursors (e.topic, e.partition) = some c →
    c.offset ≤ e.offset
  /-- Entries are before the cursors. -/
  before : ∀ e ∈ f.entries, ∃ c, Assoc.get? f.cursors (e.topic, e.partition) = some c ∧
    e.offset < c.offset

theorem between_start (cursors : Cursors) : Between cursors ⟨[], cursors, .goOn⟩ :=
  ⟨fun _ c h => ⟨c, h, Nat.le_refl _⟩, fun _ h => (List.not_mem_nil h).elim,
    fun _ h => (List.not_mem_nil h).elim⟩

theorem Between.taken {cursors : Cursors} {f : Fetch} (h : Between cursors f) (topic : String)
    (number : Int) (bs : Bytes) :
    Between cursors (f.taken o topic number bs (startIn o f.cursors (topic, number) bs)) := by
  generalize hstart : startIn o f.cursors (topic, number) bs = start
  generalize hread : readFrom (o.limit - f.entries.length) start bs = read
  have hcursor : read.2 = ⟨start.byte + (ended read.1).length, start.offset + read.1.length⟩ := by
    rw [← hread]
    exact readFrom_cursor _ _ _
  have hentries : (f.taken o topic number bs start).entries =
      f.entries ++ entriesOf topic number start.offset read.1 := by
    rw [Fetch.taken, hread]
  have hget : ∀ key, Assoc.get? (f.taken o topic number bs start).cursors key =
      if (topic, number) = key then some read.2 else Assoc.get? f.cursors key := by
    intro key
    rw [← hread]
    exact Assoc.get?_put _ _ _ _
  have hstored : ∀ c, Assoc.get? f.cursors (topic, number) = some c → c = start := by
    intro c hc
    rw [startIn, hc] at hstart
    exact hstart
  have honward : ∀ key c, Assoc.get? f.cursors key = some c →
      ∃ c', Assoc.get? (f.taken o topic number bs start).cursors key = some c' ∧
        c.offset ≤ c'.offset := by
    intro key c hc
    rw [hget]
    split
    · rename_i hkey
      subst hkey
      refine ⟨_, rfl, ?_⟩
      rw [hstored c hc, hcursor]
      exact Nat.le_add_right _ _
    · exact ⟨c, hc, Nat.le_refl _⟩
  refine ⟨fun key c hc => ?_, fun e he c hc => ?_, fun e he => ?_⟩
  · obtain ⟨c', hc', hle⟩ := h.onward key c hc
    obtain ⟨c'', hc'', hle'⟩ := honward key c' hc'
    exact ⟨c'', hc'', Nat.le_trans hle hle'⟩
  · rw [hentries] at he
    rcases List.mem_append.mp he with he | he
    · exact h.behind e he c hc
    · obtain ⟨htopic, hnumber, hle, -⟩ := mem_entriesOf he
      rw [htopic, hnumber] at hc
      obtain ⟨c', hc', hle'⟩ := h.onward _ c hc
      rw [hstored c' hc'] at hle'
      exact Nat.le_trans hle' hle
  · rw [hentries] at he
    rcases List.mem_append.mp he with he | he
    · obtain ⟨c, hc, hlt⟩ := h.before e he
      obtain ⟨c', hc', hle⟩ := honward _ c hc
      exact ⟨c', hc', Nat.lt_of_lt_of_le hlt hle⟩
    · obtain ⟨htopic, hnumber, -, hlt⟩ := mem_entriesOf he
      refine ⟨read.2, ?_, ?_⟩
      · rw [hget, htopic, hnumber, if_pos rfl]
      · rw [hcursor]
        exact hlt

theorem Between.foldl {cursors : Cursors} {f : Fetch} (h : Between cursors f) (vs : List Visit) :
    Between cursors (vs.foldl (visit o t) f) := by
  induction vs generalizing f with
  | nil => exact h
  | cons v vs ih =>
      rw [List.foldl_cons]
      by_cases hf : f.verdict = .goOn
      · rcases visit_cases (o := o) (t := t) hf v with ⟨e, -, hvisit⟩ | ⟨-, hvisit⟩ |
          ⟨topic, number, path, bs, -, -, -, hvisit⟩
        · rw [hvisit]
          exact ih ⟨h.onward, h.behind, h.before⟩
        · rw [hvisit]
          exact ih ⟨h.onward, h.behind, h.before⟩
        · rw [hvisit]
          exact ih (h.taken topic number bs)
      · rw [visit_stopped hf]
        exact ih h

/-! ## Polls that read the same -/

/-- Two polls that start at the start have read the same, and go on at the same places. -/
structure Alike (f g : Fetch) : Prop where
  entries : f.entries = g.entries
  verdict : f.verdict = g.verdict
  cursors : ∀ key, (Assoc.get? f.cursors key).getD .zero = (Assoc.get? g.cursors key).getD .zero

theorem Alike.visit {f g : Fetch} (ho : o.start = .earliest) (h : Alike f g) (v : Visit) :
    Alike (f.visit o t v) (g.visit o t v) := by
  obtain ⟨entries, cursors, verdict⟩ := f
  obtain ⟨entries', cursors', verdict'⟩ := g
  obtain ⟨hentries, hverdict, hcursors⟩ := h
  dsimp only at hentries hverdict hcursors
  subst hentries hverdict
  cases v with
  | unlisted e =>
      cases verdict with
      | goOn => exact ⟨rfl, rfl, hcursors⟩
      | full => exact ⟨rfl, rfl, hcursors⟩
      | failed e' => exact ⟨rfl, rfl, hcursors⟩
  | partition topic number path =>
      rw [Fetch.visit, Fetch.visit, readPartition, readPartition]
      cases verdict with
      | full => exact ⟨rfl, rfl, hcursors⟩
      | failed e' => exact ⟨rfl, rfl, hcursors⟩
      | goOn =>
          dsimp only
          split
          · exact ⟨rfl, rfl, hcursors⟩
          split
          · exact ⟨rfl, rfl, hcursors⟩
          · rw [ho]
            dsimp only
            rw [hcursors (topic, number)]
            refine ⟨rfl, rfl, fun key => ?_⟩
            rw [Assoc.get?_put, Assoc.get?_put]
            split
            · rfl
            · exact hcursors key

theorem Alike.foldl {f g : Fetch} (ho : o.start = .earliest) (h : Alike f g) (vs : List Visit) :
    Alike (vs.foldl (Fetch.visit o t) f) (vs.foldl (Fetch.visit o t) g) := by
  induction vs generalizing f g with
  | nil => exact h
  | cons v vs ih => exact ih (h.visit ho v)

end Fetch

namespace Consumer

variable {root : Path} {t : FileTree} {c : Consumer}

/-- A poll of a consumer that reads some topics. -/
theorem poll_eq (hopen : c.closed = false) (htopics : c.topics.isEmpty = false) :
    c.poll root t = ((c.fetch root t).result, { c with cursors := (c.fetch root t).cursors }) := by
  rw [poll, if_neg (ne_true_of_eq_false hopen), if_neg (ne_true_of_eq_false htopics)]

/-- A consumer that was closed, or reads no topic, is left as it is. -/
theorem poll_idle (root : Path) (t : FileTree) (h : c.closed = true ∨ c.topics = []) :
    (c.poll root t).2 = c ∧ Replay.entriesOf (c.poll root t).1 = [] := by
  rw [poll]
  split
  · exact ⟨rfl, rfl⟩
  split
  · exact ⟨rfl, rfl⟩
  · rename_i hclosed htopics
    rcases h with h | h
    · exact absurd h hclosed
    · rw [h] at htopics
      exact absurd rfl htopics

/-- Whether a poll is one that reads. -/
theorem poll_kind (c : Consumer) : (c.closed = true ∨ c.topics = []) ∨
    (c.closed = false ∧ c.topics.isEmpty = false) := by
  cases hclosed : c.closed with
  | true => exact .inl (.inl rfl)
  | false =>
      cases htopics : c.topics with
      | nil => exact .inl (.inr rfl)
      | cons topic topics => exact .inr ⟨rfl, rfl⟩

theorem entriesOf_result (f : Fetch) : ∀ e ∈ Replay.entriesOf f.result, e ∈ f.entries := by
  intro e he
  unfold Fetch.result at he
  split at he
  · cases he
  · exact he

theorem between_fetch (root : Path) (t : FileTree) (c : Consumer) :
    Fetch.Between c.cursors (c.fetch root t) := by
  rw [fetch_eq]
  exact (Fetch.between_start c.cursors).foldl _

/-- Polls hand over nothing that is before a cursor. -/
theorem polled_behind (trees : List FileTree) {e : Entry} (he : e ∈ c.polled root trees)
    {cursor : Cursor} (hc : Assoc.get? c.cursors (e.topic, e.partition) = some cursor) :
    cursor.offset ≤ e.offset := by
  -- cursors only go on, so what is before one now is before it in every later poll
  induction trees generalizing c cursor with
  | nil => cases he
  | cons t trees ih =>
      rw [polled] at he
      rcases poll_kind c with hidle | ⟨hopen, htopics⟩
      · obtain ⟨hsame, hnone⟩ := poll_idle root t hidle
        rw [hsame, hnone, List.nil_append] at he
        exact ih he hc
      · rw [poll_eq hopen htopics] at he
        have hbetween := between_fetch root t c
        rcases List.mem_append.mp he with he | he
        · exact hbetween.behind e (entriesOf_result _ e he) cursor hc
        · obtain ⟨cursor', hc', hle⟩ := hbetween.onward _ cursor hc
          exact Nat.le_trans hle (ih he hc')

/-- The consumers read the same topics from the start, and have come equally far. -/
structure Alike (c d : Consumer) : Prop where
  options : c.options = d.options
  start : d.options.start = .earliest
  topics : c.topics = d.topics
  closed : c.closed = d.closed
  cursors : ∀ key, (Assoc.get? c.cursors key).getD .zero = (Assoc.get? d.cursors key).getD .zero

theorem Alike.polled {c d : Consumer} (h : Alike c d) (trees : List FileTree) :
    c.polled root trees = d.polled root trees := by
  -- the consumers stay alike from one poll to the next
  induction trees generalizing c d with
  | nil => rfl
  | cons t trees ih =>
      rw [Consumer.polled, Consumer.polled]
      rcases poll_kind d with hidle | ⟨hopen, htopics⟩
      · obtain ⟨hsame, hnone⟩ := poll_idle root t hidle
        rw [← h.closed, ← h.topics] at hidle
        obtain ⟨hsame', hnone'⟩ := poll_idle root t hidle
        rw [hsame, hnone, hsame', hnone', ih h]
      · have hfetch : Fetch.Alike (c.fetch root t) (d.fetch root t) := by
          have hbegin : Fetch.Alike ⟨[], c.cursors, .goOn⟩ ⟨[], d.cursors, .goOn⟩ :=
            ⟨rfl, rfl, h.cursors⟩
          rw [fetch_eq, fetch_eq, h.topics, h.options]
          exact hbegin.foldl h.start _
        have hresult : (c.fetch root t).result = (d.fetch root t).result := by
          rw [Fetch.result, Fetch.result, hfetch.entries, hfetch.verdict]
        rw [poll_eq (h.closed.trans hopen) (by rw [h.topics]; exact htopics),
          poll_eq hopen htopics, hresult]
        congr 1
        exact ih ⟨h.options, h.start, h.topics, h.closed, hfetch.cursors⟩

/-- What a poll visits depends on nothing that polls change. -/
theorem visits_poll (root : Path) (t t' : FileTree) (c : Consumer) :
    (c.poll root t').2.visits root t = c.visits root t ∧
      (c.poll root t').2.options = c.options := by
  rcases poll_kind c with hidle | ⟨hopen, htopics⟩
  · rw [(poll_idle root t' hidle).1]
    exact ⟨rfl, rfl⟩
  · rw [poll_eq hopen htopics]
    exact ⟨rfl, rfl⟩

theorem visits_idle (root : Path) (t : FileTree) (h : c.closed = true ∨ c.topics = []) :
    c.visits root t = [] ∧ c.fetched root t = [] := by
  rw [visits, fetched]
  cases hclosed : c.closed with
  | true => exact ⟨rfl, rfl⟩
  | false =>
      rcases h with h | h
      · rw [hclosed] at h
        cases h
      · rw [fetch, h]
        exact ⟨rfl, rfl⟩

/-- What a poll that failed while it read comes to: it progressed by what it visited before the
failure. -/
theorem poll_failed (hopen : c.closed = false) (htopics : c.topics.isEmpty = false)
    {e : BrokerError} (h : (c.poll root t).1 = .error e) :
    (∃ v rest, c.visits root t = c.passed root t ++ v :: rest ∧ v.fault? t = some e) ∧
      ∃ f, Fetch.Progress c.options t (c.visits root t) c.cursors (c.passed root t) f ∧
        f.entries = c.fetched root t ∧ f.cursors = (c.poll root t).2.cursors := by
  have hvisits : c.visits root t = c.topics.flatMap (Visit.ofTopic root t) := by
    rw [visits, if_neg (ne_true_of_eq_false hopen)]
  rw [poll_eq hopen htopics] at h
  have hverdict : (c.fetch root t).verdict = .failed e := by
    change (c.fetch root t).result = .error e at h
    unfold Fetch.result at h
    split at h
    · rename_i hverdict
      cases h
      exact hverdict
    · cases h
  rw [fetch_eq, ← hvisits] at hverdict
  obtain ⟨before, v, after, hsplit, hfault, hbefore, hgo, hfold⟩ :=
    Fetch.foldl_visit_failed rfl hverdict
  have hpassed : c.passed root t = before := by
    have hall : ∀ u ∈ before, (u.fault? t).isNone = true := by
      intro u hu
      rw [hbefore u hu]
      rfl
    rw [passed, hsplit, List.takeWhile_append_of_pos hall, List.takeWhile_cons_of_neg,
      List.append_nil]
    rw [hfault]
    simp
  rw [← hpassed] at hsplit hgo hfold
  refine ⟨⟨v, after, hsplit, hfault⟩, _, (Fetch.progress_start c.options t _ c.cursors).foldl rfl
    hsplit hgo, ?_, ?_⟩
  · rw [fetched, if_neg (ne_true_of_eq_false hopen), fetch_eq, ← hvisits, hfold]
    rfl
  · rw [poll_eq hopen htopics, fetch_eq, ← hvisits, hfold]
    rfl

/-- **What a poll has read is handed over by no later poll**, whether or not it was handed over by
this one, and whatever the files hold by then. -/
theorem fetched_lost {entry later : Entry} (hentry : entry ∈ c.fetched root t)
    (trees : List FileTree) (hlater : later ∈ (c.poll root t).2.polled root trees) :
    ¬ (later.topic = entry.topic ∧ later.partition = entry.partition ∧
      later.offset = entry.offset) := by
  rintro ⟨htopic, hpartition, hoffset⟩
  rcases poll_kind c with hidle | ⟨hopen, htopics⟩
  · rw [(visits_idle root t hidle).2] at hentry
    cases hentry
  · rw [fetched, if_neg (ne_true_of_eq_false hopen)] at hentry
    obtain ⟨cursor, hcursor, hlt⟩ := (between_fetch root t c).before entry hentry
    rw [← htopic, ← hpartition] at hcursor
    have hstored : Assoc.get? (c.poll root t).2.cursors (later.topic, later.partition) =
        some cursor := by
      rw [poll_eq hopen htopics]
      exact hcursor
    have := polled_behind trees hlater hstored
    omega

/-- A poll that reads nothing fails for want of a topic, or because the consumer was closed. -/
theorem poll_idle_failed (hidle : c.closed = true ∨ c.topics = []) {e : BrokerError}
    (h : (c.poll root t).1 = .error e) :
    (c.closed = true ∧ e = .closed) ∨ (c.topics = [] ∧ e = .notSubscribed) := by
  rw [poll] at h
  split at h
  · rename_i hclosed
    cases h
    exact .inl ⟨hclosed, rfl⟩
  split at h
  · rename_i htopics
    cases h
    exact .inr ⟨List.isEmpty_iff.mp htopics, rfl⟩
  · rename_i hclosed htopics
    rcases hidle with hidle | hidle
    · exact absurd hidle hclosed
    · exact absurd (List.isEmpty_iff.mpr hidle) htopics

theorem position_poll (root : Path) (t : FileTree) (c : Consumer) (key : String × Int) :
    (c.poll root t).2.position root t key =
      positionIn c.options t (c.visits root t) (c.poll root t).2.cursors key := by
  obtain ⟨hvisits, hoptions⟩ := visits_poll root t t c
  rw [position, hvisits, hoptions]

/-- A consumer that reads from the start and has its old positions reads what it would have read. -/
theorem polled_of_kept (hstart : c.options.start = .earliest)
    (hkept : ∀ key, (c.poll root t).2.position root t key = c.position root t key)
    (trees : List FileTree) : (c.poll root t).2.polled root trees = c.polled root trees := by
  rcases poll_kind c with hidle | ⟨hopen, htopics⟩
  · rw [(poll_idle root t hidle).1]
  · refine Alike.polled ⟨(visits_poll root t t c).2, hstart, ?_, ?_, fun key => ?_⟩ trees
    · rw [poll_eq hopen htopics]
    · rw [poll_eq hopen htopics]
    · have hkey := hkept key
      rw [position_poll, position, positionIn, positionIn, hstart] at hkey
      exact hkey

/--
**A poll that fails.** It fails at the first visit that goes wrong. It leaves every position
as it was exactly when no partition before that one has a line behind its position. Then, if
the consumer reads from the start, all later polls hand over what they would have without it.
Otherwise it has read what it does not hand over, and no later poll hands that over either,
whatever the files hold by then.
-/
theorem failed_poll_positions (root : Path) (t : FileTree) (c : Consumer) (e : BrokerError)
    (h : (c.poll root t).1 = .error e) :
    ((c.closed = true ∧ e = .closed) ∨ (c.topics = [] ∧ e = .notSubscribed) ∨
      ∃ v rest, c.visits root t = c.passed root t ++ v :: rest ∧ v.fault? t = some e) ∧
    ((∀ key, (c.poll root t).2.position root t key = c.position root t key) ↔
      ∀ v ∈ c.passed root t, ¬ v.HasLine t (c.position root t)) ∧
    ((∀ v ∈ c.passed root t, ¬ v.HasLine t (c.position root t)) → c.options.start = .earliest →
      ∀ trees, (c.poll root t).2.polled root trees = c.polled root trees) ∧
    (c.fetched root t = [] ↔ ∀ v ∈ c.passed root t, ¬ v.HasLine t (c.position root t)) ∧
    ∀ entry ∈ c.fetched root t, ∀ trees, ∀ later ∈ (c.poll root t).2.polled root trees,
      ¬ (later.topic = entry.topic ∧ later.partition = entry.partition ∧
        later.offset = entry.offset) := by
  rcases poll_kind c with hidle | ⟨hopen, htopics⟩
  · -- nothing is visited, so there is nothing that could be lost
    obtain ⟨hnone, hnothing⟩ := visits_idle root t hidle
    have hpassed : c.passed root t = [] := by
      rw [passed, hnone]
      rfl
    rw [(poll_idle root t hidle).1, hpassed, hnothing]
    refine ⟨?_, by simp, fun _ _ _ => rfl, by simp, fun entry hentry => by cases hentry⟩
    rcases poll_idle_failed hidle h with hclosed | htopics
    · exact .inl hclosed
    · exact .inr (.inl htopics)
  · obtain ⟨hfault, f, hprogress, hentries, hcursors⟩ := poll_failed hopen htopics h
    have hnothing : c.fetched root t = [] ↔
        ∀ v ∈ c.passed root t, ¬ v.HasLine t (c.position root t) := by
      rw [← hentries]
      exact hprogress.eq_nil_iff
    have hkept : (∀ key, (c.poll root t).2.position root t key = c.position root t key) ↔
        ∀ v ∈ c.passed root t, ¬ v.HasLine t (c.position root t) := by
      simp only [position_poll, ← hcursors]
      exact hprogress.eq_nil_iff_kept.symm.trans hprogress.eq_nil_iff
    exact ⟨.inr (.inr hfault), hkept,
      fun hlines hstart trees => polled_of_kept hstart (hkept.mpr hlines) trees, hnothing,
      fun entry hentry trees later hlater => fetched_lost hentry trees hlater⟩

/-- A topic with one line in partition 0, and with a directory that is named like partition 1. -/
def misleadingTree : FileTree :=
  ⟨[(["log"], .directory), (["log", "t"], .directory), (["log", "t", "0.log"], .file 0),
    (["log", "t", "1.log"], .directory)], Registry.empty.add [0x7B, 0x7D, 0x0A]⟩

/-- A consumer that is about to read the topic from the start. -/
def eagerConsumer : Consumer := ⟨⟨500, .earliest⟩, ["t"], [], false⟩

/-- The theorem at this tree: the line in partition 0 is read, not handed over, and lost. -/
theorem failed_poll_misleadingTree : ∃ entry ∈ eagerConsumer.fetched ["log"] misleadingTree,
    (eagerConsumer.poll ["log"] misleadingTree).1 = .error (.io SystemError.isDirectory.message) ∧
    ∀ trees, ∀ later ∈ (eagerConsumer.poll ["log"] misleadingTree).2.polled ["log"] trees,
      ¬ (later.topic = entry.topic ∧ later.partition = entry.partition ∧
        later.offset = entry.offset) := by
  have hnames : misleadingTree.list ["log", "t"] = .ok ["0.log", "1.log"] := rfl
  have hparts : partitions ["log"] "t" misleadingTree =
      .ok [(0, ["log", "t", "0.log"]), (1, ["log", "t", "1.log"])] := by
    rw [partitions, topicPath_eq (by decide)]
    dsimp only
    rw [show ["log"] ++ ["t"] = ["log", "t"] from rfl, hnames]
    dsimp only
    rw [partitionsIn, List.mergeSort_of_pairwise]
    · rfl
    · decide
  have hfetch : eagerConsumer.fetch ["log"] misleadingTree =
      ⟨[⟨"t", 0, 0, none, "\x7b\x7d"⟩], [(("t", 0), ⟨3, 1⟩)],
        .failed (.io SystemError.isDirectory.message)⟩ := by
    show ["t"].foldl (Fetch.readTopic ⟨500, .earliest⟩ ["log"] misleadingTree) ⟨[], [], .goOn⟩ = _
    rw [List.foldl_cons, List.foldl_nil, Fetch.readTopic]
    dsimp only
    rw [hparts]
    rfl
  have hpoll : (eagerConsumer.poll ["log"] misleadingTree).1 =
      .error (.io SystemError.isDirectory.message) := by
    rw [poll_eq rfl rfl, hfetch]
    rfl
  have hentry : (⟨"t", 0, 0, none, "\x7b\x7d"⟩ : Entry) ∈
      eagerConsumer.fetched ["log"] misleadingTree := by
    rw [fetched, hfetch]
    exact List.mem_singleton_self _
  obtain ⟨-, -, -, -, hlost⟩ :=
    failed_poll_positions ["log"] misleadingTree eagerConsumer _ hpoll
  exact ⟨_, hentry, hpoll, hlost _ hentry⟩

end Consumer

end SchemaHistory.FileLog
