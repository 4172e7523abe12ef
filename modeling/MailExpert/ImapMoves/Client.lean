import MailExpert.Lib.Prog

/-!
# A connection to the mail server

Two mailboxes of the server and the commands a connection sends to it. The server carries a command out in full, or the connection answers
`false` (the server said no), `undefined` (no mailbox was selected) or throws, and then nothing was done (`Client.reply`).
-/

namespace MailExpert.ImapMoves

structure Message where
  uid : Nat
  letter : Nat
  deleted : Bool
deriving DecidableEq

/-- A mailbox gives each message a uid of its own, and the next one to the next message. -/
structure Mailbox where
  messages : List Message
  uidNext : Nat
  nodup : (messages.map (·.uid)).Nodup
  below : ∀ m ∈ messages, m.uid < uidNext

variable {l l' : List Message} {m m' : Message} {uid : Nat} {uids : List Nat} {box : Mailbox}

/-- An IMAP uid set, as the ranges between its commas. -/
abbrev UidSet := List (Nat × Nat)

def UidSet.has (set : UidSet) (uid : Nat) : Bool := set.any fun part => part.1 ≤ uid && uid ≤ part.2

variable {set range : UidSet}

/-- The loops of `packUidRange`, from a range that may go on. -/
def packFrom (start last : Nat) : List Nat → UidSet
  | [] => [(start, last)]
  | uid :: rest => if uid = last + 1 then packFrom start uid rest else (start, last) :: packFrom uid uid rest

def packUidRange (uids : List Nat) : UidSet :=
  match uids.dedup.insertionSort (· ≤ ·) with
  | [] => []
  | uid :: rest => packFrom uid uid rest

theorem has_packFrom {start last : Nat} (hle : start ≤ last) : (packFrom start last uids).has uid ↔ start ≤ uid ∧ uid ≤ last ∨ uid ∈ uids := by
  induction uids generalizing start last with
  | nil => simp [packFrom, UidSet.has]
  | cons next rest ih =>
    rw [packFrom]
    split_ifs with h
    · rw [ih (by omega), List.mem_cons]
      constructor
      · rintro (h' | h')
        · by_cases hn : uid = next
          · exact .inr (.inl hn)
          · exact .inl (by omega)
        · exact .inr (.inr h')
      · rintro (h' | h' | h')
        · exact .inl (by omega)
        · exact .inl (by omega)
        · exact .inr h'
    · have hhas : UidSet.has ((start, last) :: packFrom next next rest) uid ↔
          start ≤ uid ∧ uid ≤ last ∨ (packFrom next next rest).has uid := by simp [UidSet.has]
      rw [hhas, ih le_rfl, List.mem_cons]
      refine or_congr Iff.rfl (or_congr ?_ Iff.rfl)
      omega

/-- The ranges name exactly the uids. -/
theorem has_packUidRange : (packUidRange uids).has uid ↔ uid ∈ uids := by
  have hmem : uid ∈ uids.dedup.insertionSort (· ≤ ·) ↔ uid ∈ uids := by simp
  rw [packUidRange, ← hmem]
  cases uids.dedup.insertionSort (· ≤ ·) with
  | nil => simp [UidSet.has]
  | cons first rest =>
    rw [has_packFrom le_rfl, List.mem_cons]
    refine or_congr ?_ Iff.rfl
    omega

theorem packUidRange_eq_nil : packUidRange uids = [] ↔ uids = [] := by
  refine ⟨fun h => List.eq_nil_iff_forall_not_mem.mpr fun uid hmem => ?_, fun h => by simp [h, packUidRange]⟩
  have hhas := has_packUidRange.mpr hmem
  rw [h] at hhas
  cases hhas

def store (deleted : Bool) (set : UidSet) (l : List Message) : List Message :=
  l.map fun m => if set.has m.uid then { m with deleted := deleted } else m

@[simp] theorem map_uid_store {deleted : Bool} : (store deleted set l).map (·.uid) = l.map (·.uid) := by
  rw [store, List.map_map]
  refine List.map_congr_left fun m _ => ?_
  by_cases h : set.has m.uid <;> simp [h]

theorem mem_store {deleted : Bool} :
    m ∈ store deleted set l ↔ ∃ m' ∈ l, m = if set.has m'.uid then { m' with deleted := deleted } else m' := by
  rw [store, List.mem_map]
  exact exists_congr fun m' => and_congr Iff.rfl eq_comm

def Mailbox.store (box : Mailbox) (deleted : Bool) (set : UidSet) : Mailbox where
  messages := ImapMoves.store deleted set box.messages
  uidNext := box.uidNext
  nodup := by rw [map_uid_store]; exact box.nodup
  below := by
    intro m hm
    obtain ⟨m', hm', rfl⟩ := mem_store.mp hm
    have := box.below m' hm'
    split <;> assumption

def Mailbox.keep (box : Mailbox) (p : Message → Bool) : Mailbox where
  messages := box.messages.filter p
  uidNext := box.uidNext
  nodup := box.nodup.sublist (List.filter_sublist.map _)
  below := fun m hm => box.below m (List.mem_of_mem_filter hm)

def Mailbox.numbered (box : Mailbox) (l : List Message) : List Message := l.mapIdx fun i m => { m with uid := box.uidNext + i }

theorem mem_numbered (hm : m ∈ box.numbered l) : box.uidNext ≤ m.uid ∧ m.uid < box.uidNext + l.length := by
  obtain ⟨i, hi, rfl⟩ := List.mem_mapIdx.mp hm
  exact ⟨Nat.le_add_right .., Nat.add_lt_add_left hi _⟩

theorem nodup_numbered : ((box.numbered l).map (·.uid)).Nodup := by
  have hmap : (box.numbered l).map (·.uid) = (List.range l.length).map (box.uidNext + ·) :=
    List.ext_getElem (by simp [Mailbox.numbered]) fun i _ _ => by simp [Mailbox.numbered]
  rw [hmap]
  exact List.nodup_range.map fun _ _ h => Nat.add_left_cancel h

def Mailbox.add (box : Mailbox) (l : List Message) : Mailbox where
  messages := box.messages ++ box.numbered l
  uidNext := box.uidNext + l.length
  nodup := by
    rw [List.map_append, List.nodup_append]
    refine ⟨box.nodup, nodup_numbered, ?_⟩
    intro uid huid uid' huid'
    obtain ⟨m, hm, rfl⟩ := List.mem_map.mp huid
    obtain ⟨m', hm', rfl⟩ := List.mem_map.mp huid'
    have := box.below m hm
    have := (mem_numbered hm').1
    omega
  below := by
    intro m hm
    rcases List.mem_append.mp hm with hm | hm
    · have := box.below m hm
      omega
    · exact (mem_numbered hm).2

structure Server where
  source : Mailbox
  dest : Mailbox

inductive Command
  | move
  | copy
  | searchOurs
  | searchFlagged
  | unflagOthers
  | flag
  | expunge
  | searchLeft
  | reflagOthers
deriving DecidableEq

inductive Reply
  | done
  | no
  | undefined
  | throws
deriving DecidableEq

/-- What a promise of the connection resolves to. -/
inductive Answer (α : Type)
  | value (a : α)
  | no
  | undefined
deriving DecidableEq

/-- A connection; `names` says whether the server names the uids it copied. -/
structure Client where
  capabilities : List String
  enabled : List String
  names : Bool
  reply : Command → Reply

variable {client : Client} {command : Command} {α : Type} {value : Server → α} {effect : Server → Server} {s : Server}

def Client.send (client : Client) (command : Command) (value : Server → α) (effect : Server → Server) : Prog Server Unit (Answer α) := fun s =>
  match client.reply command with
  | .done => (.ok (.value (value s)), effect s)
  | .no => (.ok .no, s)
  | .undefined => (.ok .undefined, s)
  | .throws => (.error (), s)

theorem send_done (h : client.reply command = .done) : client.send command value effect s = (.ok (.value (value s)), effect s) := by
  rw [Client.send, h]

theorem send_no (h : client.reply command = .no) : client.send command value effect s = (.ok .no, s) := by rw [Client.send, h]

theorem send_undefined (h : client.reply command = .undefined) : client.send command value effect s = (.ok .undefined, s) := by rw [Client.send, h]

theorem send_throws (h : client.reply command = .throws) : client.send command value effect s = (.error (), s) := by rw [Client.send, h]

def Client.search (client : Client) (command : Command) (p : Message → Bool) : Prog Server Unit (Answer (List Nat)) :=
  client.send command (fun s => (s.source.messages.filter p).map (·.uid)) id

/-- `messageFlagsAdd` and `messageFlagsRemove` of `\Deleted`. -/
def Client.messageFlags (client : Client) (command : Command) (deleted : Bool) (set : UidSet) : Prog Server Unit (Answer Unit) :=
  client.send command (fun _ => ()) fun s => { s with source := s.source.store deleted set }

def Client.plainExpunge (client : Client) : Bool := !client.capabilities.contains "UIDPLUS"

/-- What `messageDelete` leaves. -/
def Client.left (client : Client) (set : UidSet) (m : Message) : Bool := !(m.deleted && (client.plainExpunge || set.has m.uid))

def Client.messageDelete (client : Client) (set : UidSet) : Prog Server Unit (Answer Unit) :=
  client.send .expunge (fun _ => ()) fun s => { s with source := s.source.keep (client.left set) }

def Server.present (s : Server) (set : UidSet) : List Message := s.source.messages.filter fun m => set.has m.uid

/-- `uidMap` of `messageCopy` and `messageMove`: the uid in the source, the uid in the destination. -/
def Client.uidMap (client : Client) (set : UidSet) (s : Server) : Option (List (Nat × Nat)) :=
  if client.names then some (((s.present set).map (·.uid)).zip ((s.dest.numbered (s.present set)).map (·.uid))) else none

def Client.messageCopy (client : Client) (set : UidSet) : Prog Server Unit (Answer (Option (List (Nat × Nat)))) :=
  client.send .copy (client.uidMap set) fun s => { s with dest := s.dest.add (s.present set) }

def Client.messageMove (client : Client) (set : UidSet) : Prog Server Unit (Answer (Option (List (Nat × Nat)))) :=
  client.send .move (client.uidMap set) fun s =>
    { source := s.source.keep fun m => !set.has m.uid, dest := s.dest.add (s.present set) }

end MailExpert.ImapMoves
