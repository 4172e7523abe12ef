import MailExpert.SseStream.Reader

/-!
# Streams cut into chunks

A stream is read over its text. An event found in a part of the text is found there in the whole (`blocks_append`), so chunks only matter
where one ends (`readChunks_cases`): the text behind the last event may then be too long, although the event fits, by a part of the boundary
behind it.
-/

namespace MailExpert.SseStream

open Encodings.Utf8 (units)
open Sanitizer (Text codes)
open Forwarding (trim)

variable {t u fl block rest left : Text} {bs : List Text} {b : UInt8} {d : Decoder} {chunk bytes : List UInt8} {chunks : List (List UInt8)}
  {maxEventBytes : Nat}

theorem Decoder.decode_append (bytes bytes' : List UInt8) (d : Decoder) :
    d.decode (bytes ++ bytes') = ((d.decode bytes).1 ++ ((d.decode bytes).2.decode bytes').1, ((d.decode bytes).2.decode bytes').2) := by
  induction bytes generalizing d with
  | nil => rfl
  | cons b l ih => simp only [List.cons_append, decode, ih, List.append_assoc]

/-- Behind a byte order mark the chunks are decoded as the bytes of a whole text are. -/
theorem Decoder.decode_flush (bytes : List UInt8) (state : Encodings.Utf8.State) :
    (decode ⟨state, true⟩ bytes).1 ++ (decode ⟨state, true⟩ bytes).2.flush = (Encodings.Utf8.decodeFrom state bytes).flatMap units := by
  induction bytes generalizing state with
  | nil => cases state <;> rfl
  | cons b l ih =>
    have hnext : Encodings.Utf8.decodeFrom state (b :: l) = (nextByte state b).1 ++ Encodings.Utf8.decodeFrom (nextByte state b).2 l := by
      cases state with
      | start => rfl
      | more needed code lower upper =>
        rw [Encodings.Utf8.decodeFrom, nextByte]
        split_ifs <;> rfl
    rw [hnext, List.flatMap_append, ← ih, ← List.append_assoc]
    rfl

theorem boundaryAt_append (h : boundaryAt t = some rest) : boundaryAt (t ++ u) = some (rest ++ u) := by
  unfold boundaryAt at h
  split at h <;> cases h <;> rfl

/-- No boundary over an end starts before one that is complete. -/
theorem boundaryAt_append_none {c : Nat} (h : boundaryAt (c :: t) = none) (ht : splitEvent t ≠ none) : boundaryAt (c :: (t ++ u)) = none := by
  match t with
  | [] => exact absurd rfl ht
  | [x] => simp [splitEvent, boundaryAt] at ht
  | [x, y] =>
    have hxy : x = 10 ∧ y = 10 := by
      unfold splitEvent at ht
      split at ht
      · next hb =>
        unfold boundaryAt at hb
        split at hb <;> simp_all
      · simp [splitEvent, boundaryAt] at ht
    obtain ⟨rfl, rfl⟩ := hxy
    simp only [List.cons_append, List.nil_append]
    unfold boundaryAt
    split <;> first | rfl | rename_i heq; cases heq <;> cases h
  | x :: y :: z :: w =>
    simp only [List.cons_append]
    unfold boundaryAt
    split <;> first | rfl | rename_i heq; cases heq; cases h

theorem splitEvent_append (h : splitEvent t = some (block, rest)) (u : Text) : splitEvent (t ++ u) = some (block, rest ++ u) := by
  induction t generalizing block with
  | nil => cases h
  | cons c t ih =>
    rw [splitEvent] at h
    split at h
    · next hb =>
      cases h
      rw [List.cons_append, splitEvent, ← List.cons_append, boundaryAt_append hb]
    · next hb =>
      obtain ⟨r, hr, heq⟩ := Option.map_eq_some_iff.mp h
      cases heq
      have hnone : boundaryAt (c :: (t ++ u)) = none := boundaryAt_append_none hb (by simp [hr])
      rw [List.cons_append, splitEvent, hnone, ih hr]
      rfl

/-- The complete events of a text, and the text behind the last one. -/
def blocks (t : Text) : List Text × Text :=
  match h : splitEvent t with
  | none => ([], t)
  | some (block, rest) =>
    have := length_of_splitEvent h
    (block :: (blocks rest).1, (blocks rest).2)
termination_by t.length

theorem blocks_of_none (h : splitEvent t = none) : blocks t = ([], t) := by
  rw [blocks]
  split
  · rfl
  · next hs => rw [h] at hs; cases hs

theorem blocks_of_some (h : splitEvent t = some (block, rest)) : blocks t = (block :: (blocks rest).1, (blocks rest).2) := by
  rw [blocks]
  split
  · next hs => rw [h] at hs; cases hs
  · next hs =>
    rw [h] at hs
    cases hs
    rfl

/-- By induction on the number of events in the first text. -/
theorem blocks_append (t u : Text) :
    blocks (t ++ u) = ((blocks t).1 ++ (blocks ((blocks t).2 ++ u)).1, (blocks ((blocks t).2 ++ u)).2) := by
  match h : splitEvent t with
  | none => rw [blocks_of_none h, List.nil_append]
  | some (block, rest) =>
    have := length_of_splitEvent h
    rw [blocks_of_some h, blocks_of_some (splitEvent_append h u), blocks_append rest u, List.cons_append]
termination_by t.length

/-- Nothing behind the last event is one. -/
theorem splitEvent_pending (t : Text) : splitEvent (blocks t).2 = none := by
  match h : splitEvent t with
  | none => rwa [blocks_of_none h]
  | some (block, rest) =>
    have := length_of_splitEvent h
    rw [blocks_of_some h]
    exact splitEvent_pending rest
termination_by t.length

/-! ## Reading the events -/

/-- The events in order, up to the first one that is too long. -/
def scan (maxEventBytes : Nat) : List Text → Text → List Text × Option Text
  | [], left => ([], some left)
  | b :: bs, left =>
    if maxEventBytes < byteLength b then ([], none) else (yielded (dataOf b) ++ (scan maxEventBytes bs left).1, (scan maxEventBytes bs left).2)

theorem drain_eq (maxEventBytes : Nat) (t : Text) : drain maxEventBytes t = scan maxEventBytes (blocks t).1 (blocks t).2 := by
  match h : splitEvent t with
  | none =>
    rw [blocks_of_none h, drain]
    split
    · rfl
    · next hs => rw [h] at hs; cases hs
  | some (block, rest) =>
    have := length_of_splitEvent h
    have ih := drain_eq maxEventBytes rest
    rw [blocks_of_some h, drain]
    split
    · next hs => rw [h] at hs; cases hs
    · next hs =>
      rw [h] at hs
      cases hs
      by_cases hlong : maxEventBytes < byteLength block
      · simp only [parseBlock, scan, if_pos hlong]
      · simp only [parseBlock, scan, if_neg hlong, ih]
termination_by t.length

def Fit (maxEventBytes : Nat) (bs : List Text) : Prop := ∀ b ∈ bs, byteLength b ≤ maxEventBytes

/-- What events yield that fit. -/
def dataIn (bs : List Text) : List Text := bs.flatMap fun b => yielded (dataOf b)

theorem scan_of_fit (h : Fit maxEventBytes bs) (left : Text) : scan maxEventBytes bs left = (dataIn bs, some left) := by
  induction bs with
  | nil => rfl
  | cons b bs ih =>
    rw [Fit, List.forall_mem_cons] at h
    rw [scan, if_neg h.1.not_gt, ih h.2]
    rfl

theorem scan_of_not_fit (h : ¬ Fit maxEventBytes bs) : ∃ events, ∀ bs' left, scan maxEventBytes (bs ++ bs') left = (events, none) := by
  induction bs with
  | nil => exact absurd (List.forall_mem_nil _) h
  | cons b bs ih =>
    by_cases hb : maxEventBytes < byteLength b
    · exact ⟨[], fun bs' left => by rw [List.cons_append, scan, if_pos hb]⟩
    · have hbs : ¬ Fit maxEventBytes bs := fun hbs => h (List.forall_mem_cons.mpr ⟨not_lt.mp hb, hbs⟩)
      obtain ⟨events, hevents⟩ := ih hbs
      exact ⟨yielded (dataOf b) ++ events, fun bs' left => by rw [List.cons_append, scan, if_neg hb, hevents]⟩

theorem readChunks_thrown {buffer : Text} {events : List Text} (h : drain maxEventBytes (buffer ++ (d.decode chunk).1) = (events, none)) :
    readChunks maxEventBytes d buffer (chunk :: chunks) = (events, .eventTooLarge) := by
  rw [readChunks]
  rcases hd : d.decode chunk with ⟨text, d'⟩
  rw [hd] at h
  simp only [h]

theorem readChunks_left {buffer : Text} {events : List Text} (h : drain maxEventBytes (buffer ++ (d.decode chunk).1) = (events, some left)) :
    readChunks maxEventBytes d buffer (chunk :: chunks) =
      if maxEventBytes < byteLength left then (events, .eventTooLarge)
      else (events ++ (readChunks maxEventBytes (d.decode chunk).2 left chunks).1, (readChunks maxEventBytes (d.decode chunk).2 left chunks).2) := by
  rw [readChunks]
  rcases hd : d.decode chunk with ⟨text, d'⟩
  rw [hd] at h
  simp only [h]

/-- What is read once the only chunk has been drained. -/
def closed (maxEventBytes : Nat) (fl : Text) : List Text × Option Text → List Text × Ending
  | (events, none) => (events, .eventTooLarge)
  | (events, some left) =>
    if maxEventBytes < byteLength left then (events, .eventTooLarge)
    else (events ++ (finish maxEventBytes (left ++ fl)).1, (finish maxEventBytes (left ++ fl)).2)

theorem closed_append (events : List Text) (r : List Text × Option Text) :
    closed maxEventBytes fl (events ++ r.1, r.2) = (events ++ (closed maxEventBytes fl r).1, (closed maxEventBytes fl r).2) := by
  rcases r with ⟨events', _ | left⟩
  · rfl
  · unfold closed
    dsimp only
    split
    · rfl
    · rw [List.append_assoc]

def readText (maxEventBytes : Nat) (t fl : Text) : List Text × Ending := closed maxEventBytes fl (drain maxEventBytes t)

theorem readChunks_one (d : Decoder) (buffer : Text) (bytes : List UInt8) :
    readChunks maxEventBytes d buffer [bytes] = readText maxEventBytes (buffer ++ (d.decode bytes).1) (d.decode bytes).2.flush := by
  rcases h : drain maxEventBytes (buffer ++ (d.decode bytes).1) with ⟨events, _ | left⟩
  · rw [readChunks_thrown h, readText, h, closed]
  · rw [readChunks_left h, readText, h, closed, readChunks]

theorem scan_append_of_fit (h : Fit maxEventBytes bs) (bs' : List Text) (left : Text) :
    scan maxEventBytes (bs ++ bs') left = (dataIn bs ++ (scan maxEventBytes bs' left).1, (scan maxEventBytes bs' left).2) := by
  induction bs with
  | nil => rfl
  | cons b bs ih =>
    rw [Fit, List.forall_mem_cons] at h
    rw [List.cons_append, scan, if_neg h.1.not_gt, ih h.2]
    simp only [dataIn, List.flatMap_cons, List.append_assoc]

/-- Events that fit come first, whatever follows. -/
theorem readText_append (h : Fit maxEventBytes (blocks t).1) (u fl : Text) :
    readText maxEventBytes (t ++ u) fl =
      (dataIn (blocks t).1 ++ (readText maxEventBytes ((blocks t).2 ++ u) fl).1, (readText maxEventBytes ((blocks t).2 ++ u) fl).2) := by
  rw [readText, readText, drain_eq, drain_eq, blocks_append t u, scan_append_of_fit h, closed_append]

/-- An event, or what is left at the end, is too long, and `p` holds of all data before it. -/
def Quiet (p : Text → Prop) (maxEventBytes : Nat) (fl : Text) : List Text → Text → Prop
  | [], left => maxEventBytes < byteLength left ∨ trim (left ++ fl) ≠ [] ∧ maxEventBytes < byteLength (left ++ fl)
  | b :: bs, left => maxEventBytes < byteLength b ∨ p (dataOf b) ∧ Quiet p maxEventBytes fl bs left

theorem forall_yielded {p : Text → Prop} (hp : p []) (data : Text) : (∀ z ∈ yielded data, p z) ↔ p data := by
  unfold yielded
  split
  · next h => simp [h, hp]
  · exact List.forall_mem_singleton

/-- By induction on the events; the last case is the rest of the text. -/
theorem closed_quiet {p : Text → Prop} (hp : p []) (bs : List Text) (left : Text) :
    (∀ z ∈ (closed maxEventBytes fl (scan maxEventBytes bs left)).1, p z) ∧
        (closed maxEventBytes fl (scan maxEventBytes bs left)).2 = .eventTooLarge ↔ Quiet p maxEventBytes fl bs left := by
  induction bs with
  | nil =>
    rw [scan, closed, Quiet]
    by_cases hleft : maxEventBytes < byteLength left
    · simp [hleft]
    · rw [if_neg hleft, or_iff_right hleft, finish]
      split
      · next ht => simp [ht]
      · next ht =>
        by_cases hlong : maxEventBytes < byteLength (left ++ fl)
        · simp [parseBlock, hlong, ht]
        · simp [parseBlock, hlong]
  | cons b bs ih =>
    rw [scan, Quiet]
    by_cases hb : maxEventBytes < byteLength b
    · simp [hb, closed]
    · rw [if_neg hb, closed_append, or_iff_right hb, ← ih, List.forall_mem_append, forall_yielded hp, and_assoc]

/-! ## Chunks -/

def received (d : Decoder) (buffer : Text) (chunks : List (List UInt8)) : Text := buffer ++ (d.decode chunks.flatten).1

/-- After `k` chunks all events so far fit and what lies behind them is too long. -/
def Cut (maxEventBytes : Nat) (d : Decoder) (buffer : Text) (chunks : List (List UInt8)) (k : Nat) : Prop :=
  Fit maxEventBytes (blocks (received d buffer (chunks.take k))).1 ∧
    maxEventBytes < byteLength (blocks (received d buffer (chunks.take k))).2

def FirstCut (maxEventBytes : Nat) (d : Decoder) (buffer : Text) (chunks : List (List UInt8)) (k : Nat) : Prop :=
  Cut maxEventBytes d buffer chunks k ∧ ∀ j < k, ¬ Cut maxEventBytes d buffer chunks j

theorem received_take (d : Decoder) (buffer : Text) (chunks : List (List UInt8)) (k : Nat) :
    ∃ u, received d buffer chunks = received d buffer (chunks.take k) ++ u := by
  refine ⟨((d.decode (chunks.take k).flatten).2.decode (chunks.drop k).flatten).1, ?_⟩
  conv_lhs => rw [received, ← List.take_append_drop k chunks, List.flatten_append, Decoder.decode_append]
  rw [received, List.append_assoc]

theorem received_cons (d : Decoder) (buffer : Text) (chunk : List UInt8) (chunks : List (List UInt8)) :
    blocks (received d buffer (chunk :: chunks)) =
      ((blocks (buffer ++ (d.decode chunk).1)).1 ++ (blocks (received (d.decode chunk).2 (blocks (buffer ++ (d.decode chunk).1)).2 chunks)).1,
        (blocks (received (d.decode chunk).2 (blocks (buffer ++ (d.decode chunk).1)).2 chunks)).2) := by
  rw [received, List.flatten_cons, Decoder.decode_append, ← List.append_assoc, blocks_append]
  rfl

theorem not_cut_zero {buffer : Text} (hb : splitEvent buffer = none) (hfit : byteLength buffer ≤ maxEventBytes) :
    ¬ Cut maxEventBytes d buffer chunks 0 := by
  rintro ⟨-, hlong⟩
  have hnil : received d buffer (chunks.take 0) = buffer := List.append_nil _
  rw [hnil, blocks_of_none hb] at hlong
  exact hfit.not_gt hlong

theorem cut_succ {buffer : Text} {k : Nat} (h : Fit maxEventBytes (blocks (buffer ++ (d.decode chunk).1)).1) :
    Cut maxEventBytes d buffer (chunk :: chunks) (k + 1) ↔
      Cut maxEventBytes (d.decode chunk).2 (blocks (buffer ++ (d.decode chunk).1)).2 chunks k := by
  rw [Cut, Cut, List.take_succ_cons, received_cons, Fit, List.forall_mem_append]
  exact and_congr_left fun _ => and_iff_right h

/-- Reading stops at the first cut, and elsewhere the chunks do not show. By induction on the chunks; what is left of the text so far holds
no event and is not too long. -/
theorem readChunks_cases (d : Decoder) (buffer : Text) (chunks : List (List UInt8)) (hb : splitEvent buffer = none) (hfit : byteLength buffer ≤ maxEventBytes) :
    (∃ k, FirstCut maxEventBytes d buffer chunks k ∧
        readChunks maxEventBytes d buffer chunks = (dataIn (blocks (received d buffer (chunks.take k))).1, .eventTooLarge)) ∨
      (∀ k, ¬ Cut maxEventBytes d buffer chunks k) ∧
        readChunks maxEventBytes d buffer chunks = readChunks maxEventBytes d buffer [chunks.flatten] := by
  induction chunks generalizing d buffer with
  | nil =>
    refine .inr ⟨fun k hk => @not_cut_zero d [] maxEventBytes buffer hb hfit ?_, ?_⟩
    · rwa [Cut, List.take_nil] at hk ⊢
    · have hnil : buffer ++ (d.decode ([] : List (List UInt8)).flatten).1 = buffer := List.append_nil _
      rw [readChunks_one, hnil, readText, drain_eq, blocks_of_none hb, scan, closed, if_neg hfit.not_gt]
      rfl
  | cons chunk chunks ih =>
    have hdrain := drain_eq maxEventBytes (buffer ++ (d.decode chunk).1)
    by_cases hevents : Fit maxEventBytes (blocks (buffer ++ (d.decode chunk).1)).1
    · rw [scan_of_fit hevents] at hdrain
      by_cases hlong : maxEventBytes < byteLength (blocks (buffer ++ (d.decode chunk).1)).2
      · have hone : received d buffer ((chunk :: chunks).take 1) = buffer ++ (d.decode chunk).1 := by
          rw [received, List.take_succ_cons, List.take_zero, List.flatten_singleton]
        refine .inl ⟨1, ⟨⟨hone ▸ hevents, hone ▸ hlong⟩, fun j hj => ?_⟩, ?_⟩
        · obtain rfl := Nat.lt_one_iff.mp hj
          exact not_cut_zero hb hfit
        · rw [hone, readChunks_left hdrain, if_pos hlong]
      · have hread : readChunks maxEventBytes d buffer (chunk :: chunks) =
            (dataIn (blocks (buffer ++ (d.decode chunk).1)).1 ++
                (readChunks maxEventBytes (d.decode chunk).2 (blocks (buffer ++ (d.decode chunk).1)).2 chunks).1,
              (readChunks maxEventBytes (d.decode chunk).2 (blocks (buffer ++ (d.decode chunk).1)).2 chunks).2) := by
          rw [readChunks_left hdrain, if_neg hlong]
        rcases ih (d.decode chunk).2 (blocks (buffer ++ (d.decode chunk).1)).2 (splitEvent_pending _) (not_lt.mp hlong) with
          ⟨k, ⟨hcut, hfirst⟩, hk⟩ | ⟨hnone, hwhole⟩
        · refine .inl ⟨k + 1, ⟨(cut_succ hevents).mpr hcut, fun j hj => ?_⟩, ?_⟩
          · cases j with
            | zero => exact not_cut_zero hb hfit
            | succ j => exact fun h => hfirst j (by omega) ((cut_succ hevents).mp h)
          · rw [hread, hk, List.take_succ_cons, received_cons, dataIn, dataIn, dataIn, List.flatMap_append]
        · refine .inr ⟨fun k => ?_, ?_⟩
          · cases k with
            | zero => exact not_cut_zero hb hfit
            | succ k => exact fun h => hnone k ((cut_succ hevents).mp h)
          · rw [hread, hwhole, readChunks_one, readChunks_one, List.flatten_cons, Decoder.decode_append, ← List.append_assoc,
              readText_append hevents]
    · obtain ⟨events, hscan⟩ := scan_of_not_fit hevents
      refine .inr ⟨fun k => ?_, ?_⟩
      · cases k with
        | zero => exact not_cut_zero hb hfit
        | succ k =>
          rintro ⟨hk, -⟩
          rw [List.take_succ_cons, received_cons] at hk
          exact hevents fun b hmem => hk b (List.mem_append_left _ hmem)
      · have hnil := hscan [] (blocks (buffer ++ (d.decode chunk).1)).2
        rw [List.append_nil] at hnil
        rw [readChunks_one, readText, drain_eq, List.flatten_cons, Decoder.decode_append, ← List.append_assoc, blocks_append, hscan,
          readChunks_thrown (hdrain.trans hnil), closed]

end MailExpert.SseStream
