import MailExpert.SseStream.Cuts

/-!
# The stream in one chunk

When a stream cut into chunks is read as it is in one chunk, by `readSseData` and by `parseCodexSse`. What decides is the first cut, the first
chunk end behind which the text is too long: reading stops there, and in one chunk it goes on to the first event with data or too long
(`stream_cuts`).
-/

namespace MailExpert.SseStream

open Sanitizer (Text codes)
open Forwarding (trim)

variable {t u fl block rest left : Text} {bs : List Text} {d : Decoder} {buffer : Text} {chunks : List (List UInt8)} {k k' maxEventBytes : Nat}
  {parse : Text → Option Json}

theorem FirstCut.unique (h : FirstCut maxEventBytes d buffer chunks k) (h' : FirstCut maxEventBytes d buffer chunks k') : k = k' := by
  rcases lt_trichotomy k k' with hlt | heq | hlt
  · exact absurd h.1 (h'.2 k hlt)
  · exact heq
  · exact absurd h'.1 (h.2 k' hlt)

/-- Of the events that are not complete after `k` chunks, one is too long, and `p` holds of all data before it. -/
def QuietFrom (p : Text → Prop) (maxEventBytes : Nat) (d : Decoder) (buffer : Text) (chunks : List (List UInt8)) (k : Nat) : Prop :=
  Quiet p maxEventBytes (d.decode chunks.flatten).2.flush
    ((blocks (received d buffer chunks)).1.drop (blocks (received d buffer (chunks.take k))).1.length) (blocks (received d buffer chunks)).2

theorem yielded_ne_nil (data : Text) : ∀ z ∈ yielded data, z ≠ [] := by
  unfold yielded
  split
  · exact List.forall_mem_nil _
  · next h => exact List.forall_mem_singleton.mpr h

theorem scan_ne_nil (bs : List Text) (left : Text) : ∀ z ∈ (scan maxEventBytes bs left).1, z ≠ [] := by
  induction bs with
  | nil => exact List.forall_mem_nil _
  | cons b bs ih =>
    rw [scan]
    split
    · exact List.forall_mem_nil _
    · exact List.forall_mem_append.mpr ⟨yielded_ne_nil _, ih⟩

theorem finish_ne_nil (t : Text) : ∀ z ∈ (finish maxEventBytes t).1, z ≠ [] := by
  unfold finish
  split
  · exact List.forall_mem_nil _
  · split
    · exact List.forall_mem_nil _
    · exact yielded_ne_nil _

theorem readText_ne_nil (t fl : Text) : ∀ z ∈ (readText maxEventBytes t fl).1, z ≠ [] := by
  have hscan := @scan_ne_nil maxEventBytes (blocks t).1 (blocks t).2
  rw [readText, drain_eq]
  revert hscan
  rcases scan maxEventBytes (blocks t).1 (blocks t).2 with ⟨events, _ | left⟩
  · exact id
  · intro hscan
    rw [closed]
    split
    · exact hscan
    · exact List.forall_mem_append.mpr ⟨hscan, finish_ne_nil _⟩

/-- The stream in one chunk, from the events on that are not complete after `k` chunks. -/
theorem readChunks_whole (h : Fit maxEventBytes (blocks (received d buffer (chunks.take k))).1) :
    ∃ events ending, readChunks maxEventBytes d buffer [chunks.flatten] =
        (dataIn (blocks (received d buffer (chunks.take k))).1 ++ events, ending) ∧ (∀ z ∈ events, z ≠ []) ∧
      ∀ p : Text → Prop, p [] → ((∀ z ∈ events, p z) ∧ ending = .eventTooLarge ↔ QuietFrom p maxEventBytes d buffer chunks k) := by
  obtain ⟨u, hu⟩ := received_take d buffer chunks k
  have hone := @readChunks_one maxEventBytes d buffer chunks.flatten
  rw [← received, hu, readText_append h] at hone
  refine ⟨_, _, hone, readText_ne_nil _ _, fun p hp => ?_⟩
  rw [QuietFrom, hu, blocks_append, List.drop_left, ← closed_quiet hp, readText, drain_eq]

/-- Chunks change what is read only at the first cut, where in one chunk an event with data comes before one that is too long. -/
theorem readSseData_iff : readSseData maxEventBytes chunks = readSseData maxEventBytes [chunks.flatten] ↔
    ∀ k, FirstCut maxEventBytes .new [] chunks k → QuietFrom (· = []) maxEventBytes .new [] chunks k := by
  rcases readChunks_cases .new [] chunks rfl (Nat.zero_le maxEventBytes) with ⟨k, hk, hread⟩ | ⟨hnone, hread⟩
  · obtain ⟨events, ending, hwhole, hne, hquiet⟩ := readChunks_whole hk.1.1
    have hsame : readSseData maxEventBytes chunks = readSseData maxEventBytes [chunks.flatten] ↔ events = [] ∧ ending = .eventTooLarge := by
      rw [readSseData, readSseData, hread, hwhole, Prod.mk.injEq, List.self_eq_append_right, eq_comm (b := ending)]
    have hnil : (∀ z ∈ events, z = []) ↔ events = [] := by
      refine ⟨fun h => List.eq_nil_iff_forall_not_mem.mpr fun z hz => hne z hz (h z hz), fun h => ?_⟩
      rw [h]
      exact List.forall_mem_nil _
    rw [hsame, ← hnil, hquiet (fun z => z = []) rfl]
    exact ⟨fun h k' hk' => hk.unique hk' ▸ h, fun h => h k hk⟩
  · exact ⟨fun _ k hk => absurd hk.1 (hnone k), fun _ => hread⟩

/-! ## Codex responses -/

/-- The deltas of events that do not end the response, and the count after them. -/
def follow (parse : Text → Option Json) : Nat → List Text → Option (List Text × Nat)
  | outputChars, [] => some ([], outputChars)
  | outputChars, data :: rest =>
    match handle parse outputChars data with
    | .ends _ => none
    | .goesOn delta outputChars' => (follow parse outputChars' rest).map fun r => (yielded delta ++ r.1, r.2)

theorem consume_of_none {outputChars : Nat} {zs : List Text} (h : follow parse outputChars zs = none) (zs' zs'' : List Text) (e e' : Ending) :
    consume parse outputChars (zs ++ zs') e = consume parse outputChars (zs ++ zs'') e' := by
  induction zs generalizing outputChars with
  | nil => cases h
  | cons data zs ih =>
    rw [follow] at h
    rw [List.cons_append, List.cons_append, consume, consume]
    cases hd : handle parse outputChars data with
    | ends _ => rfl
    | goesOn delta outputChars' =>
      simp only [hd] at h
      simp only [ih (Option.map_eq_none_iff.mp h)]

theorem consume_of_some {outputChars last : Nat} {zs deltas : List Text} (h : follow parse outputChars zs = some (deltas, last)) (zs' : List Text)
    (e : Ending) :
    consume parse outputChars (zs ++ zs') e = (deltas ++ (consume parse last zs' e).1, (consume parse last zs' e).2) := by
  induction zs generalizing outputChars deltas with
  | nil =>
    cases h
    rfl
  | cons data zs ih =>
    rw [follow] at h
    rw [List.cons_append, consume]
    cases hd : handle parse outputChars data with
    | ends _ =>
      simp only [hd] at h
      cases h
    | goesOn delta outputChars' =>
      simp only [hd] at h
      obtain ⟨r, hr, heq⟩ := Option.map_eq_some_iff.mp h
      cases heq
      simp only [ih hr, List.append_assoc]

theorem ne_tooLarge {message : Text} {code : Option Text} (h : message.take 19 ≠ codes "ChatGPT response ev") : .failed message code ≠ tooLarge := by
  rintro heq
  cases heq
  exact h rfl

theorem ended_ne : .failed (codes "ChatGPT response ended before completion") none ≠ tooLarge := ne_tooLarge (by decide)

theorem eventError_ne (event : Json) {fallback : Text} (hlength : 19 ≤ fallback.length) (h : fallback.take 19 ≠ codes "ChatGPT response ev") :
    eventError event fallback ≠ tooLarge := by
  refine ne_tooLarge ?_
  split
  · exact h
  · rwa [List.append_assoc, List.take_append_of_le_length hlength]

/-- No event makes the response end as one that is too long does. -/
theorem handle_ends {outputChars : Nat} {data : Text} {outcome : Outcome} (h : handle parse outputChars data = .ends outcome) : outcome ≠ tooLarge := by
  unfold handle at h
  split at h
  · cases h
    exact ne_tooLarge (by decide)
  · cases h
    exact Outcome.noConfusion
  · dsimp only at h
    split_ifs at h <;> cases h
    · exact Outcome.noConfusion
    · exact ne_tooLarge (by decide)
    · exact eventError_ne _ (by decide) (by decide)
    · exact eventError_ne _ (by decide) (by decide)
    · exact eventError_ne _ (by decide) (by decide)

theorem handle_goesOn {outputChars outputChars' : Nat} {data : Text} (h : handle parse outputChars data = .goesOn [] outputChars') :
    outputChars' = outputChars := by
  unfold handle at h
  split at h
  · cases h
  · cases h
  · dsimp only at h
    split_ifs at h
    · injection h with hdelta hchars
      rw [← hchars, hdelta]
      rfl
    · injection h with _ hchars
      exact hchars.symm

theorem consume_eq_tooLarge {outputChars : Nat} {zs : List Text} {e : Ending} :
    consume parse outputChars zs e = ([], tooLarge) ↔ (∀ z ∈ zs, handle parse outputChars z = .goesOn [] outputChars) ∧ e = .eventTooLarge := by
  induction zs with
  | nil =>
    cases e with
    | normal => simp [consume, ended_ne]
    | eventTooLarge => simp [consume]
  | cons data zs ih =>
    rw [consume, List.forall_mem_cons, and_assoc]
    split
    · next outcome hd => simp [hd, handle_ends hd]
    · next delta outputChars' hd =>
      by_cases hdelta : delta = []
      · subst hdelta
        obtain rfl := handle_goesOn hd
        simpa [hd, yielded, Prod.ext_iff] using ih
      · simp [hd, yielded, hdelta]

/-- Chunks change what a response yields only at the first cut, where the response still goes on and in one chunk an event that does something
comes before one that is too long. -/
theorem parseCodexSse_iff : parseCodexSse parse chunks = parseCodexSse parse [chunks.flatten] ↔
    ∀ k, FirstCut EVENT_LIMIT_BYTES .new [] chunks k →
      ∀ deltas outputChars, follow parse 0 (dataIn (blocks (received .new [] (chunks.take k))).1) = some (deltas, outputChars) →
        QuietFrom (fun data => data = [] ∨ handle parse outputChars data = .goesOn [] outputChars) EVENT_LIMIT_BYTES .new [] chunks k := by
  rcases readChunks_cases .new [] chunks rfl (Nat.zero_le EVENT_LIMIT_BYTES) with ⟨k, hk, hread⟩ | ⟨hnone, hread⟩
  · obtain ⟨events, ending, hwhole, hne, hquiet⟩ := readChunks_whole hk.1.1
    simp only [parseCodexSse, readSseData, hread, hwhole]
    rcases hfollow : follow parse 0 (dataIn (blocks (received .new [] (chunks.take k))).1) with _ | ⟨deltas, outputChars⟩
    · have hsame := consume_of_none hfollow [] events .eventTooLarge ending
      rw [List.append_nil] at hsame
      refine iff_of_true hsame fun k' hk' deltas outputChars h => ?_
      rw [← hk.unique hk', hfollow] at h
      cases h
    · have hpart := consume_of_some hfollow [] .eventTooLarge
      rw [List.append_nil] at hpart
      have hdata : (∀ z ∈ events, z = [] ∨ handle parse outputChars z = .goesOn [] outputChars) ↔
          ∀ z ∈ events, handle parse outputChars z = .goesOn [] outputChars :=
        forall₂_congr fun z hz => or_iff_right (hne z hz)
      have hsame : (consume parse 0 (dataIn (blocks (received .new [] (chunks.take k))).1) .eventTooLarge =
          consume parse 0 (dataIn (blocks (received .new [] (chunks.take k))).1 ++ events) ending) ↔
            consume parse outputChars events ending = ([], tooLarge) := by
        rw [hpart, consume_of_some hfollow, consume, Prod.ext_iff, Prod.ext_iff, List.append_nil, List.self_eq_append_right, eq_comm (a := tooLarge)]
      rw [hsame, consume_eq_tooLarge, ← hdata, hquiet _ (.inl rfl)]
      refine ⟨fun h k' hk' deltas' outputChars' h' => ?_, fun h => h k hk deltas outputChars hfollow⟩
      obtain rfl := hk.unique hk'
      rw [hfollow] at h'
      cases h'
      exact h
  · exact ⟨fun _ k hk => absurd hk.1 (hnone k), fun _ => by rw [parseCodexSse, parseCodexSse, readSseData, readSseData, hread]⟩

/-- For every stream and every way to cut it. -/
theorem stream_cuts (parse : Text → Option Json) (maxEventBytes : Nat) (chunks : List (List UInt8)) :
    (readSseData maxEventBytes chunks = readSseData maxEventBytes [chunks.flatten] ↔
        ∀ k, FirstCut maxEventBytes .new [] chunks k → QuietFrom (· = []) maxEventBytes .new [] chunks k) ∧
      (parseCodexSse parse chunks = parseCodexSse parse [chunks.flatten] ↔
        ∀ k, FirstCut EVENT_LIMIT_BYTES .new [] chunks k →
          ∀ deltas outputChars, follow parse 0 (dataIn (blocks (received .new [] (chunks.take k))).1) = some (deltas, outputChars) →
            QuietFrom (fun data => data = [] ∨ handle parse outputChars data = .goesOn [] outputChars) EVENT_LIMIT_BYTES .new [] chunks k) :=
  ⟨readSseData_iff, parseCodexSse_iff⟩

/-- The bytes of a text in ASCII. -/
def bytes (s : String) : List UInt8 := s.toUTF8.toList

/-- An event of seven bytes fits in seven, unless its last empty line comes in another chunk. -/
theorem stream_cuts_boundary : ¬ ∀ (parse : Text → Option Json) (maxEventBytes : Nat) (chunks : List (List UInt8)),
    readSseData maxEventBytes chunks = readSseData maxEventBytes [chunks.flatten] ∧
      parseCodexSse parse chunks = parseCodexSse parse [chunks.flatten] := by
  intro h
  have hread := (h (fun _ => none) 7 [bytes "data: a\r\n", bytes "\r\n"]).1
  revert hread
  decide +kernel

end MailExpert.SseStream
