import SchemaHistory.Proofs.File.Session
import SchemaHistory.Proofs.File.Spot

/-!
# What a history leaves alone

A tree of files holds more than the log, such as the file that the properties of a history are
read from, which may stand anywhere, below the root of the log too. A history makes directories
and one file, and adds to the file of its partition, so every other file goes on to be found where
it was and to hold what it held. The new file has a number that none had before, so the file of
the partition is never one that was there under another path.
-/

namespace SchemaHistory

open FileTree FileLog Text

namespace FileTree

/-- The second tree has all that the first has, and no file has changed but the one under the path
`own`, which is none that was there under another path. -/
structure Spares (own : Path) (t t' : FileTree) : Prop where
  nodes : t.Extends t'
  size : t.contents.size ≤ t'.contents.size
  older : ∀ k, k < t.contents.size → Assoc.get? t'.nodes own = some (.file k) →
    Assoc.get? t.nodes own = some (.file k)
  contents : ∀ k bs, t.contents.get? k = some bs → Assoc.get? t'.nodes own ≠ some (.file k) →
    t'.contents.get? k = some bs

variable {own : Path} {t t' t'' : FileTree}

theorem Spares.refl (own : Path) (t : FileTree) : Spares own t t :=
  ⟨fun _ _ hn => hn, Nat.le_refl _, fun _ _ hk => hk, fun _ _ hk _ => hk⟩

theorem Spares.trans (h : Spares own t t') (h' : Spares own t' t'') : Spares own t t'' := by
  refine ⟨fun path n hn => h'.nodes path n (h.nodes path n hn), Nat.le_trans h.size h'.size,
    fun k hlt hk => h.older k hlt (h'.older k (Nat.lt_of_lt_of_le hlt h.size) hk), fun k bs hk hne => ?_⟩
  exact h'.contents k bs (h.contents k bs hk fun hown => hne (h'.nodes own _ hown)) hne

/-- A file that is not the one under `own` is read as before, wherever the path leads. -/
theorem Spares.read (h : Spares own t t') (hown : Assoc.get? t.nodes own = none) {path : Path}
    {bs : Bytes} (hread : t.read path = .ok bs) (hbs : bs ≠ []) : t'.read path = .ok bs := by
  rw [FileTree.read] at hread ⊢
  split at hread
  · cases hread
  · rename_i q node hfind
    rw [h.nodes.find hfind]
    dsimp only
    cases node with
    | directory => cases hread
    | nullDevice => exact hread
    | file k =>
        have hbytes : (t.contents.get? k).getD [] = bs := Except.ok.inj hread
        cases hk : t.contents.get? k with
        | none =>
            rw [hk] at hbytes
            exact absurd hbytes.symm hbs
        | some held =>
            rw [hk, Option.getD_some] at hbytes
            subst hbytes
            have hkept := h.contents k held hk fun hown' => by
              rw [h.older k (Registry.lt_size_of_get? hk) hown'] at hown
              cases hown
            rw [readNode, bytes, hkept, Option.getD_some]

/-! ## What the operations spare -/

theorem spares_makeDirectory (own : Path) (t : FileTree) (path : Path) :
    Spares own t (t.makeDirectory path).2 := by
  rcases makeDirectory_cases t path with ⟨e, hmake⟩ | ⟨above, q, name, -, hnone, hmake⟩
  · rw [hmake]
    exact .refl own t
  · rw [hmake]
    refine ⟨extends_put hnone rfl, Nat.le_refl _, fun k _ hk => ?_, fun k bs hk _ => hk⟩
    rw [Assoc.get?_put] at hk
    split at hk
    · cases hk
    · exact hk

theorem spares_makeDirectories (own : Path) (t : FileTree) (path : Path) :
    Spares own t (t.makeDirectories path).2 :=
  makeDirectories_preserves (P := Spares own t)
    (fun t' path h => h.trans (spares_makeDirectory own t' path)) (.refl own t)

/-- A name that is not found in a directory, which is there, has nothing in its place. -/
theorem get?_of_noEntry {path new : Path} (hfind : t.find path = .error .noEntry)
    (hplace : t.place path.dropLast (path.getLast?.getD "") = .ok new) :
    Assoc.get? t.nodes new = none := by
  rcases List.eq_nil_or_concat path with rfl | ⟨front, name, rfl⟩
  · cases hfind
  rw [List.concat_eq_append] at hfind hplace
  rw [List.dropLast_concat, List.getLast?_concat, Option.getD_some, place] at hplace
  split at hplace
  · cases hplace
  rename_i q node hfront
  split at hplace
  · cases hplace
  rename_i hdirectory
  split at hplace
  · cases hplace
  rename_i hshort
  cases hplace
  rw [find_append hfront, walk, if_neg hdirectory] at hfind
  split at hfind
  · cases hfind
  split at hfind
  · cases hfind
  split at hfind
  · assumption
  · rw [walk] at hfind
    cases hfind

theorem spares_openAppend (own : Path) (t : FileTree) (path : Path) :
    Spares own t (t.openAppend path).2 := by
  rw [openAppend]
  split
  · exact .refl own t
  split
  · exact .refl own t
  · exact .refl own t
  · exact .refl own t
  · rename_i hfind
    rw [makeFile]
    split
    · exact .refl own t
    · rename_i new hplace
      refine ⟨extends_put (get?_of_noEntry hfind hplace) rfl, by simp, fun k hlt hk => ?_,
        fun k bs hk _ => Registry.get?_add_of_some hk []⟩
      -- the file that is made has a number that comes behind all others
      rw [Assoc.get?_put] at hk
      split at hk
      · cases hk
        exact absurd hlt (Nat.lt_irrefl _)
      · exact hk
  · exact .refl own t

/-- Adding to the file under `own`. -/
theorem spares_append {k : Nat} (hk : Assoc.get? t.nodes own = some (.file k)) (bs : Bytes) :
    Spares own t (t.append (.file k) bs) := by
  refine ⟨fun _ _ hn => hn, by simp [append], fun _ _ hn => hn, fun j held hj hne => ?_⟩
  have hother : k ≠ j := by
    rintro rfl
    exact hne hk
  rw [append, Registry.get?_modify, if_neg hother]
  exact hj

end FileTree

namespace FileLog

/-- A writer that goes on behind some bytes keeps what it writes for itself at first. -/
theorem PartitionWriter.continuing_tree (handle : Handle) (bs : Bytes) (t : FileTree) :
    (continuing handle bs t).2 = t := by
  rw [continuing]
  split
  · rfl
  · rfl

theorem spares_openAt (own : Path) (t : FileTree) (path : Path) :
    Spares own t (PartitionWriter.openAt path t).2 := by
  have hmade := spares_makeDirectories own t path.dropLast
  rw [PartitionWriter.openAt]
  split
  · rename_i e t₁ hmake
    rwa [hmake] at hmade
  · rename_i t₁ hmake
    rw [hmake] at hmade
    split
    · exact hmade
    · have hopened := hmade.trans (spares_openAppend own t₁ path)
      split
      · rename_i e t₂ hopen
        rwa [hopen] at hopened
      · rename_i handle t₂ hopen
        rw [hopen] at hopened
        rwa [PartitionWriter.continuing_tree]

theorem Producer.spares_writerFor (own root : Path) (topic : String) (partition : Int)
    (p : Producer) (t : FileTree) : Spares own t (p.writerFor root topic partition t).2 := by
  rw [writerFor]
  split
  · exact .refl own t
  split
  · exact .refl own t
  · rename_i path _
    have hopened := spares_openAt own t path
    split
    · rename_i hopen
      rwa [hopen] at hopened
    · rename_i hopen
      rwa [hopen] at hopened

section Storing

variable {root rp : Path} {topic : String} {bs : Bytes}

/-- **An append and its flush** add to the file of the partition only. -/
theorem Producer.Ready.spares {p p₁ p₂ : Producer} {t t₁ t₂ : FileTree}
    (h : p.Ready t (rp ++ [topic]) topic bs) (hholds : Holds t (rp ++ [topic]) bs)
    (hroot : t.find root = .ok (rp, .directory)) (hlegal : isTopicName topic = true)
    (hshort : topic.utf8ByteSize ≤ maxName) {ticket : Ticket} {key : Option String}
    {payload : String} (hline : '\n' ∉ payload.toList)
    (hsend : p.send root ticket ⟨topic, historyPartition, key, payload⟩ t = (.ok (), p₁, t₁))
    {result : Except BrokerError Unit} {acks : List (Ticket × Ack)}
    (hflush : p₁.flush t₁ = (result, acks, p₂, t₂)) :
    Spares ((rp ++ [topic]) ++ [partitionFile]) t t₂ := by
  obtain ⟨w, k, t₀, t', hwriter, -, honfile, -, ⟨next, hrepair⟩, -⟩ :=
    h.writerFor hholds hroot hlegal hshort
  have hopened := p.spares_writerFor ((rp ++ [topic]) ++ [partitionFile]) root topic
    historyPartition t
  rw [hwriter] at hopened
  obtain ⟨hhandle, zs, hrepaired, -⟩ := hrepair
  have hfile : Assoc.get? t'.nodes ((rp ++ [topic]) ++ [partitionFile]) = some (.file k) := by
    rw [show t' = t₀.append (.file k) zs from hrepaired, append_nodes]
    exact honfile.file
  -- all bytes of the line go to the file that the writer has open
  obtain ⟨hhandle', ys, hwrite, -⟩ := w.writeLine_wrote (utf8 payload) t'
  generalize hmade : w.writeLine (utf8 payload) t' = made at hhandle' hwrite
  obtain ⟨offset, w', t''⟩ := made
  rw [show w.handle = .file k from hhandle] at hhandle' hwrite
  have hwriters : Assoc.put (topic, historyPartition) w' p.writers =
      [((topic, historyPartition), w')] := by
    rcases h.writers with hnone | ⟨w₀, k₀, hw, -⟩
    · rw [hnone]
      rfl
    · rw [hw, Assoc.put, if_pos rfl]
  rw [Producer.send, if_neg (ne_true_of_eq_false h.isOpen), if_neg (by simpa using hline)] at hsend
  dsimp only at hsend
  rw [hwriter] at hsend
  dsimp only at hsend
  rw [hmade] at hsend
  cases hsend
  rw [Producer.flush, if_neg (ne_true_of_eq_false h.isOpen), Producer.settle] at hflush
  dsimp only at hflush hhandle' hwrite
  rw [hwriters, Writers.syncAll, PartitionWriter.spill, hhandle', hwrite, append_append] at hflush
  cases hflush
  exact hopened.trans (spares_append hfile _)

variable {w : World FileLog} {h : History} {p : ProducerId} {pr : Producer}

/-- **A store** leaves all files alone but that of the partition. -/
theorem store_spares (r : Record) (hp : h.producer = some p) (htopic : h.settings.topic = topic)
    (hroot : w.log.root = root) (hpr : w.log.producers.get? p = some pr)
    (hready : pr.Ready w.log.files (rp ++ [topic]) topic bs)
    (hsettled : Settled root rp topic w.log.files bs) (hlegal : isTopicName topic = true)
    (hshort : topic.utf8ByteSize ≤ maxName) :
    Spares ((rp ++ [topic]) ++ [partitionFile]) w.log.files
      (h.store host r w).2.2.log.files := by
  subst hroot
  obtain ⟨pr₁, t₁, place, pr₂, t₂, k, hsend, hflush, -⟩ :=
    hready.append hsettled.holds hsettled.root hlegal hshort w.log.deliveries.next none
      r.oneLine_payload
  have hspares := hready.spares hsettled.holds hsettled.root hlegal hshort r.oneLine_payload
    hsend hflush
  have hrequest : h.request r = ⟨topic, historyPartition, none, r.payload⟩ := by
    rw [History.request, htopic]
  rw [← hrequest] at hsend
  have hget : (w.log.producers.set p pr₁).get? p = some pr₁ := Registry.get?_set_self hpr _
  obtain ⟨-, hworld⟩ := store_of_send hp (send_eq hpr hsend) (flush_eq hget hflush)
    (answer?_fillAll w.log.deliveries (.ok place))
  rw [hworld]
  exact hspares

end Storing

end FileLog

end SchemaHistory
