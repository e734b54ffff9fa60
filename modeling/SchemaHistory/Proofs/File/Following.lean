import SchemaHistory.Proofs.File.Shares

/-!
# A run of a producer, seen from one partition

Of each partition a run of sends and flushes is one of three. The partition is a file that can be
opened: then its share goes through the calls as if the producer wrote to nothing else, but for
flushes that fail. It cannot be opened: then nothing is ever written there. Or it is a link to
the device, where nothing stays. Each is carried from call to call, and what the file holds in
the end follows from what it held and from the lines that were sent to it.
-/

namespace SchemaHistory.FileLog

open FileTree Text

/-! ## The lines of a partition -/

/-- What a partition holds with some lines behind what it held before, of which a torn line is
ended. -/
def heldWith (before : Bytes) (lines : List Bytes) : Bytes :=
  if lines = [] then before else before ++ repair before ++ ended lines

/-- What is in the file and what is held back are the lines behind what the partition held. -/
structure Balanced (before : Bytes) (lines : List Bytes) (c : Share) : Prop where
  total : c.total = heldWith before lines
  unopened : c.held = none ↔ lines = []

namespace Balanced

variable {before : Bytes} {lines : List Bytes} {c : Share}

theorem unopened_start (before : Bytes) : Balanced before [] ⟨before, none⟩ :=
  ⟨List.append_nil _, by simp⟩

theorem send (h : Balanced before lines c) (line : Bytes) :
    Balanced before (lines ++ [line]) (c.send line) := by
  have hlines : heldWith before (lines ++ [line]) =
      before ++ repair before ++ (ended lines ++ (line ++ [lineFeed])) := by
    rw [heldWith, if_neg (by simp), ended_append, ended_singleton]
  refine ⟨?_, by simp [Share.send, Share.write]⟩
  rw [Share.total_send, h.total, hlines, heldWith]
  by_cases hnone : lines = []
  · -- it was not opened before, so the file holds what it held
    have hheld := h.unopened.mpr hnone
    have htotal := h.total
    rw [Share.total, hheld, heldWith, if_pos hnone, Option.getD_none, List.append_nil] at htotal
    rw [if_pos hnone, if_pos hheld, htotal, hnone]
    rfl
  · rw [if_neg hnone, if_neg (mt h.unopened.mp hnone)]
    simp only [List.append_assoc, List.nil_append]

theorem flush (h : Balanced before lines c) : Balanced before lines c.flush :=
  ⟨(Share.total_flush c).trans h.total, Option.map_eq_none_iff.trans h.unopened⟩

/-- After a flush all is in the file. -/
theorem file_flush (h : Balanced before lines c) : c.flush.file = heldWith before lines := h.total

end Balanced

/-! ## One call -/

namespace ProducerCall

/-- The producer and the files after some calls. -/
def run (root : Path) (s : Producer × FileTree) (calls : List ProducerCall) : Producer × FileTree :=
  calls.foldl (act root) s

theorem line?_send_own {key : PartitionKey} {request : AppendRequest} (ticket : Ticket)
    (hkey : (request.topic, request.partition) = key) (hline : '\n' ∉ request.payload.toList) :
    (send ticket request).line? key = some (utf8 request.payload) := if_pos ⟨hkey, hline⟩

theorem line?_send_other {key : PartitionKey} {request : AppendRequest} (ticket : Ticket)
    (h : (request.topic, request.partition) ≠ key ∨ '\n' ∈ request.payload.toList) :
    (send ticket request).line? key = none :=
  if_neg fun hsent => h.elim (fun hkey => hkey hsent.1) hsent.2

/-- A call that does not concern the partition leaves its share. -/
theorem share_unconcerned {key : PartitionKey} {call : ProducerCall} (h : call.concerns key = false)
    (c : Share) : call.share key c = c := by
  cases call with
  | flush => cases h
  | send ticket request =>
      rw [share, line?_send_other ticket (.inl (of_decide_eq_false h))]
      rfl

/-- So only the calls that concern it count. -/
theorem foldl_share_filter (key : PartitionKey) (calls : List ProducerCall) (c : Share) :
    (calls.filter (concerns key)).foldl (share key) c = calls.foldl (share key) c := by
  rw [List.foldl_filter]
  congr 1
  funext c call
  cases hconcerns : call.concerns key with
  | true => rfl
  | false => exact (share_unconcerned hconcerns c).symm

end ProducerCall

open ProducerCall

theorem Balanced.call {before : Bytes} {lines : List Bytes} {c : Share} {key : PartitionKey}
    (h : Balanced before lines c) (call : ProducerCall) :
    Balanced before (lines ++ (call.line? key).toList) (call.share key c) := by
  cases call with
  | send ticket request =>
      rw [ProducerCall.share]
      cases (ProducerCall.send ticket request).line? key with
      | some line => exact h.send line
      | none =>
          rw [Option.toList_none, List.append_nil]
          exact h
  | flush =>
      rw [line?, Option.toList_none, List.append_nil]
      exact h.flush

section Calls

variable {root rp : Path} {s s' : Producer × FileTree} {key : PartitionKey}

/-- **A send** writes a line, or it has touched no partition: it was more than a line, or the partition
cannot be opened. -/
theorem Tended.send (h : Tended root rp s) (ticket : Ticket) (request : AppendRequest) :
    Tended root rp ((ProducerCall.send ticket request).act root s) ∧
    SameLinks s.2 ((ProducerCall.send ticket request).act root s).2 ∧
    ((∀ key, Untouched root rp key s ((ProducerCall.send ticket request).act root s)) ∧
        ('\n' ∈ request.payload.toList ∨
          (shareOf root (request.topic, request.partition) s).held = none ∧
          ¬ Openable s.2 rp (request.topic, request.partition)) ∨
      '\n' ∉ request.payload.toList ∧
        Sends root rp s.1 s.2 ticket request ((ProducerCall.send ticket request).act root s) ∧
        ∀ key, key ≠ (request.topic, request.partition) →
          Untouched root rp key s ((ProducerCall.send ticket request).act root s)) := by
  rw [act]
  rcases send_made h.found h.standing s.1 ticket request with ⟨e, hsend, hrefused⟩ |
    ⟨e, t', hsend, hrefuses⟩ | ⟨⟨-, hline⟩, s', hsend, hsends⟩
  · rw [hsend]
    exact ⟨h, fun _ => Iff.rfl, .inl ⟨fun _ => ⟨Iff.rfl, rfl⟩,
      .inl (hrefused.resolve_left (ne_true_of_eq_false h.isOpen))⟩⟩
  · rw [hsend]
    obtain ⟨htended, hlinks, huntouched⟩ := h.refused hrefuses
    refine ⟨htended, hlinks, .inl ⟨huntouched, .inr ⟨?_, hrefuses.shut⟩⟩⟩
    rw [shareOf, Writers.share, hrefuses.absent]
    rfl
  · rw [hsend]
    obtain ⟨htended, hlinks, huntouched⟩ := h.sends hsends
    exact ⟨htended, hlinks, .inr ⟨hline, hsends, huntouched⟩⟩

theorem Tended.call (h : Tended root rp s) (call : ProducerCall) :
    Tended root rp (call.act root s) ∧ SameLinks s.2 (call.act root s).2 := by
  cases call with
  | send ticket request => exact ⟨(h.send ticket request).1, (h.send ticket request).2.1⟩
  | flush => exact ⟨h.flush.1, fun path => by rw [h.flush.2.1]⟩

/-- A partition that the producer writes to, or could. -/
structure Follows (root rp : Path) (key : PartitionKey) (s : Producer × FileTree) : Prop extends
    Tended root rp s where
  file : Assoc.get? s.2.nodes (spot rp key) ≠ some .nullDevice
  openable : (shareOf root key s).held = none → Openable s.2 rp key

/-- **The share of a partition** goes through a call as if the producer wrote to nothing else, or
the call is a flush that has failed before it came to the partition. -/
theorem Follows.call (h : Follows root rp key s) (call : ProducerCall) :
    Follows root rp key (call.act root s) ∧
      (shareOf root key (call.act root s) = call.share key (shareOf root key s) ∨
        call = .flush ∧ (s.1.flush s.2).1 ≠ .ok () ∧
          shareOf root key (call.act root s) = shareOf root key s) := by
  cases call with
  | send ticket request =>
      obtain ⟨htended, hlinks, hcases⟩ := h.toTended.send ticket request
      have hfile := mt (hlinks (spot rp key)).mp h.file
      -- what is not touched can be opened as before
      have hother (huntouched : Untouched root rp key s ((ProducerCall.send ticket request).act root s))
          (hnone : (request.topic, request.partition) ≠ key ∨ '\n' ∈ request.payload.toList) :
          Follows root rp key ((ProducerCall.send ticket request).act root s) ∧
            shareOf root key ((ProducerCall.send ticket request).act root s) =
              (ProducerCall.send ticket request).share key (shareOf root key s) := by
        refine ⟨⟨htended, hfile, fun hheld => ?_⟩, ?_⟩
        · rw [huntouched.share] at hheld
          exact huntouched.openable.mpr (h.openable hheld)
        · rw [huntouched.share, ProducerCall.share, line?_send_other ticket hnone]
          rfl
      by_cases hkey : (request.topic, request.partition) = key
      · subst hkey
        rcases hcases with ⟨huntouched, hbreak | ⟨hheld, hshut⟩⟩ | ⟨hline, hsends, -⟩
        · exact (hother (huntouched _) (.inr hbreak)).imp_right .inl
        · exact absurd (h.openable hheld) hshut
        · have hshare := h.toTended.share_sends hsends h.file
          refine ⟨⟨htended, hfile, fun hheld => ?_⟩, .inl ?_⟩
          · rw [hshare] at hheld
            cases hheld
          · rw [hshare, ProducerCall.share, line?_send_own ticket rfl hline]
            rfl
      · have huntouched := hcases.elim (fun h => h.1 key) (fun h => h.2.2 key (Ne.symm hkey))
        exact (hother huntouched (.inl hkey)).imp_right .inl
  | flush =>
      obtain ⟨htended, hnodes, hshares, -⟩ := h.toTended.flush
      have hshare := hshares key h.file
      refine ⟨⟨htended, by rw [hnodes]; exact h.file, fun hheld => ?_⟩,
        hshare.imp_right fun hfails => ⟨rfl, hfails⟩⟩
      refine (openable_nodes hnodes).mpr (h.openable ?_)
      rcases hshare with hflushed | ⟨-, hsame⟩
      · rw [hflushed] at hheld
        exact Option.map_eq_none_iff.mp hheld
      · rw [hsame] at hheld
        exact hheld

/-- A partition that cannot be opened. -/
structure Shut (root rp : Path) (key : PartitionKey) (s : Producer × FileTree) : Prop extends
    Tended root rp s where
  file : Assoc.get? s.2.nodes (spot rp key) ≠ some .nullDevice
  absent : (shareOf root key s).held = none
  shut : ¬ Openable s.2 rp key

/-- It stays as it is. -/
theorem Shut.call (h : Shut root rp key s) (call : ProducerCall) :
    Shut root rp key (call.act root s) ∧
      shareOf root key (call.act root s) = shareOf root key s := by
  cases call with
  | send ticket request =>
      obtain ⟨htended, hlinks, hcases⟩ := h.toTended.send ticket request
      have huntouched : Untouched root rp key s ((ProducerCall.send ticket request).act root s) := by
        rcases hcases with ⟨huntouched, -⟩ | ⟨-, ⟨r, offset, w', t', hr, -⟩, huntouched⟩
        · exact huntouched key
        · refine huntouched key ?_
          -- there is no writer for it, and none can be opened
          rintro rfl
          have habsent := h.absent
          cases hr with
          | there present =>
              rw [shareOf, Writers.share, present] at habsent
              cases habsent
          | opened absent openable opens atSpot => exact h.shut openable
      refine ⟨⟨htended, mt (hlinks (spot rp key)).mp h.file, ?_,
        mt huntouched.openable.mp h.shut⟩, huntouched.share⟩
      rw [huntouched.share]
      exact h.absent
  | flush =>
      obtain ⟨htended, hnodes, hshares, -⟩ := h.toTended.flush
      have hsame : shareOf root key (ProducerCall.flush.act root s) = shareOf root key s := by
        rcases hshares key h.file with hflushed | ⟨-, hsame⟩
        · exact hflushed.trans (Writers.share_flush_absent (Option.map_eq_none_iff.mp h.absent) _ _)
        · exact hsame
      refine ⟨⟨htended, by rw [hnodes]; exact h.file, by rw [hsame]; exact h.absent,
        mt (openable_nodes hnodes).mp h.shut⟩, hsame⟩

end Calls

/-! ## All calls -/

section Runs

variable {root rp : Path} {s : Producer × FileTree} {key : PartitionKey}

theorem Tended.run (h : Tended root rp s) (calls : List ProducerCall) :
    Tended root rp (run root s calls) ∧ SameLinks s.2 (run root s calls).2 := by
  induction calls generalizing s with
  | nil => exact ⟨h, fun _ => Iff.rfl⟩
  | cons call calls ih =>
      obtain ⟨hnext, hlinks⟩ := h.call call
      obtain ⟨hlast, hlinks'⟩ := ih hnext
      exact ⟨hlast, fun path => (hlinks' path).trans (hlinks path)⟩

/-- **A run keeps the account** of a partition: its lines are in the file or held back. -/
theorem Follows.balanced (h : Follows root rp key s) {before : Bytes} {lines : List Bytes}
    (hbalanced : Balanced before lines (shareOf root key s)) (calls : List ProducerCall) :
    Follows root rp key (run root s calls) ∧
      Balanced before (lines ++ calls.filterMap (line? key)) (shareOf root key (run root s calls)) := by
  induction calls generalizing s lines with
  | nil =>
      rw [List.filterMap_nil, List.append_nil]
      exact ⟨h, hbalanced⟩
  | cons call calls ih =>
      obtain ⟨hnext, hshare⟩ := h.call call
      have hcall : Balanced before (lines ++ (call.line? key).toList)
          (shareOf root key (call.act root s)) := by
        rcases hshare with hshare | ⟨rfl, -, hsame⟩
        · rw [hshare]
          exact hbalanced.call call
        · rw [hsame, line?, Option.toList_none, List.append_nil]
          exact hbalanced
      have hlast := ih hnext hcall
      rw [List.append_assoc] at hlast
      rw [List.filterMap_eq_flatMap_toList, List.flatMap_cons, ← List.filterMap_eq_flatMap_toList]
      exact hlast

/-- **Without links to the device** a run takes the share of a partition through all its calls. -/
theorem Follows.run (h : Follows root rp key s)
    (hplain : ∀ path, Assoc.get? s.2.nodes path ≠ some .nullDevice) (calls : List ProducerCall) :
    shareOf root key (run root s calls) = calls.foldl (ProducerCall.share key) (shareOf root key s) := by
  induction calls generalizing s with
  | nil => rfl
  | cons call calls ih =>
      obtain ⟨hnext, hshare⟩ := h.call call
      have hcall : shareOf root key (call.act root s) = call.share key (shareOf root key s) :=
        hshare.resolve_right fun hfails => hfails.2.1 (h.toTended.flush.2.2.2 hplain)
      rw [List.foldl_cons, ← hcall]
      exact ih hnext fun path => mt ((h.toTended.call call).2 path).mp (hplain path)

theorem Shut.run (h : Shut root rp key s) (calls : List ProducerCall) :
    shareOf root key (run root s calls) = shareOf root key s := by
  induction calls generalizing s with
  | nil => rfl
  | cons call calls ih =>
      obtain ⟨hnext, hsame⟩ := h.call call
      exact (ih hnext).trans hsame

end Runs

end SchemaHistory.FileLog
