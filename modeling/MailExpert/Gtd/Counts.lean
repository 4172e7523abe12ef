import MailExpert.Gtd.Sections

/-!
# The counts follow the rows

The sections each count their own rows. The Waiting rollup counts identities, and an action moves it by one: that is right while the rows of one
thread in watch and delegated come, go and change together.
-/

universe u

namespace MailExpert.Gtd

variable {δ : Type u} {s : Sections δ} {sec : Section δ} {t : Thread δ} {threads : List (Thread δ)} {identity : String} {states : List SectionKey}
  {isRead : Bool} {key : SectionKey} {w : Waiting} {rows : List (Row δ)} {row : Row δ}

theorem is_iff : t.is identity = true ↔ t.identity = identity := beq_iff_eq

theorem lists_iff : threads.any (Thread.is identity) = true ↔ identity ∈ threads.map Thread.identity := by
  simp [is_iff]

theorem length_filter_not {α : Type u} (p : α → Bool) (l : List α) : (l.filter fun a => !p a).length = l.length - l.countP p := by
  have h := List.length_eq_countP_add_countP p (l := l)
  rw [List.countP_eq_length_filter (p := fun a => decide ¬p a = true)] at h
  have hfilter : (l.filter fun a => decide ¬p a = true) = l.filter fun a => !p a := List.filter_congr fun a _ => by cases p a <;> rfl
  rw [hfilter] at h
  omega

theorem countP_filter_not {α : Type u} (p q : α → Bool) (l : List α) :
    (l.filter fun a => !p a).countP q = l.countP q - l.countP fun a => p a && q a := by
  have h : l.countP q = (l.filter fun a => !p a).countP q + l.countP fun a => p a && q a := by
    induction l with
    | nil => rfl
    | cons a l ih => cases hp : p a <;> cases hq : q a <;> simp [hp, hq] <;> omega
  omega

theorem Section.Counted.remove (h : sec.Counted) : (sec.remove identity).Counted := by
  refine ⟨?_, ?_⟩
  · rw [Section.remove, h.1, length_filter_not]
  · rw [Section.remove, h.2, countP_filter_not]

theorem remove_nodup (h : (threads.map Thread.identity).Nodup) : ((threads.filter fun t => !t.is identity).map Thread.identity).Nodup :=
  h.sublist (List.filter_sublist.map _)

/-- A section that lists the thread gets none of its rows back. -/
theorem restore_listed (h : sec.threads.any (Thread.is identity) = true) : sec.restore identity rows = sec := by
  induction rows with
  | nil => rfl
  | cons row rows ih => rwa [Section.restore, List.foldl_cons, if_pos h]

/-- Of the rows of a snapshot the first one comes back. -/
theorem restore_cons (h : sec.threads.any (Thread.is identity) = false) (hrow : row.thread.identity = identity) :
    sec.restore identity (row :: rows) = {
      total := sec.total + 1
      unread := sec.unread + if row.thread.isRead then 0 else 1
      threads := sec.threads.insertIdx (min row.index sec.threads.length) row.thread } := by
  rw [Section.restore, List.foldl_cons, h, if_neg Bool.false_ne_true]
  refine restore_listed (lists_iff.mpr (List.mem_map.mpr ⟨row.thread, ?_, hrow⟩))
  exact (List.mem_insertIdx (Nat.min_le_right _ _)).mpr (.inl rfl)

theorem insert_perm : (threads.insertIdx (min row.index threads.length) row.thread).Perm (row.thread :: threads) :=
  List.perm_insertIdx _ _ (Nat.min_le_right _ _)

theorem restore_counted_nodup (h : sec.Counted) (hnodup : (sec.threads.map Thread.identity).Nodup)
    (hrows : ∀ row ∈ rows, row.thread.identity = identity) :
    (sec.restore identity rows).Counted ∧ ((sec.restore identity rows).threads.map Thread.identity).Nodup := by
  cases hlists : sec.threads.any (Thread.is identity) with
  | true => rw [restore_listed hlists]; exact ⟨h, hnodup⟩
  | false =>
    cases rows with
    | nil => exact ⟨h, hnodup⟩
    | cons row rows =>
      have hrow := hrows row List.mem_cons_self
      rw [restore_cons hlists hrow]
      refine ⟨⟨?_, ?_⟩, ?_⟩
      · simp only [insert_perm.length_eq, List.length_cons, h.1]
      · simp only [insert_perm.countP_eq, List.countP_cons, h.2]
        cases row.thread.isRead <;> rfl
      · refine (insert_perm.map _).nodup_iff.mpr (List.nodup_cons.mpr ⟨fun hmem => ?_, hnodup⟩)
        have := lists_iff.mpr (hrow ▸ hmem)
        simp [hlists] at this

theorem setRead_identities : (threads.map fun t => if t.flips identity isRead then { t with isRead } else t).map Thread.identity =
    threads.map Thread.identity := by
  rw [List.map_map]
  refine List.map_congr_left fun t _ => ?_
  simp only [Function.comp_apply]
  split <;> rfl

def Thread.setRead (identity : String) (isRead : Bool) (t : Thread δ) : Thread δ := if t.flips identity isRead then { t with isRead } else t

theorem countP_setRead :
    if isRead then (threads.map (Thread.setRead identity isRead)).countP (fun t => !t.isRead) + threads.countP (Thread.flips identity isRead) =
      threads.countP fun t => !t.isRead
    else (threads.map (Thread.setRead identity isRead)).countP (fun t => !t.isRead) =
      threads.countP (fun t => !t.isRead) + threads.countP (Thread.flips identity isRead) := by
  induction threads with
  | nil => cases isRead <;> rfl
  | cons t threads ih =>
    have ht : t.setRead identity isRead = if t.is identity && t.isRead != isRead then { t with isRead } else t := rfl
    have hf : t.flips identity isRead = (t.is identity && t.isRead != isRead) := rfl
    simp only [List.map_cons, List.countP_cons, ht, hf]
    cases isRead <;> cases hread : t.isRead <;> cases t.is identity <;> simp [hread] at ih ⊢ <;> omega

theorem Section.Counted.setRead (h : sec.Counted) : (sec.setRead identity isRead).Counted := by
  refine ⟨by rw [Section.setRead, h.1, List.length_map], ?_⟩
  have hcount := @countP_setRead _ sec.threads identity isRead
  simp only [Section.setRead, h.2]
  cases isRead with
  | true =>
    rw [if_pos rfl] at hcount ⊢
    exact Nat.sub_eq_of_eq_add hcount.symm
  | false =>
    rw [if_neg Bool.false_ne_true] at hcount ⊢
    exact hcount.symm

/-! ## The Waiting rollup -/

def Thread.isUnread (identity : String) (t : Thread δ) : Bool := t.is identity && !t.isRead

theorem mem_identities : identity ∈ identities threads ↔ threads.any (Thread.is identity) = true := by
  rw [lists_iff, identities, List.mem_toFinset]

theorem mem_unreadIdentities : identity ∈ unreadIdentities threads ↔ threads.any (Thread.isUnread identity) = true := by
  simp only [unreadIdentities, mem_identities, List.any_eq_true, List.mem_filter, Thread.isUnread, Bool.and_eq_true]
  exact ⟨fun ⟨t, ⟨hmem, hread⟩, his⟩ => ⟨t, hmem, his, hread⟩, fun ⟨t, hmem, his, hread⟩ => ⟨t, ⟨hmem, hread⟩, his⟩⟩

theorem identities_remove : identities (threads.filter fun t => !t.is identity) = (identities threads).erase identity := by
  ext x
  simp only [identities, List.mem_toFinset, List.mem_map, List.mem_filter, Finset.mem_erase, Bool.not_eq_true', Thread.is, beq_eq_false_iff_ne]
  constructor
  · rintro ⟨t, ⟨hmem, hne⟩, rfl⟩
    exact ⟨hne, t, hmem, rfl⟩
  · rintro ⟨hne, t, hmem, rfl⟩
    exact ⟨t, ⟨hmem, hne⟩, rfl⟩

theorem unreadIdentities_remove : unreadIdentities (threads.filter fun t => !t.is identity) = (unreadIdentities threads).erase identity := by
  rw [unreadIdentities, unreadIdentities, ← identities_remove, List.filter_filter, List.filter_filter]
  simp only [Bool.and_comm]

theorem Waiting.Counted.remove (h : w.Counted threads) (hmem : threads.any (Thread.is identity) = true) :
    Waiting.Counted { total := w.total - 1, unread := w.unread - if threads.any (Thread.isUnread identity) then 1 else 0 }
      (threads.filter fun t => !t.is identity) := by
  refine ⟨?_, ?_⟩
  · rw [identities_remove, Finset.card_erase_of_mem (mem_identities.mpr hmem), h.1]
  · rw [unreadIdentities_remove, h.2]
    split
    next hunread => rw [Finset.card_erase_of_mem (mem_unreadIdentities.mpr hunread)]
    next hunread => rw [Finset.erase_eq_of_notMem fun hin => hunread (mem_unreadIdentities.mp hin), Nat.sub_zero]

theorem Waiting.Counted.of_identities {threads' : List (Thread δ)} (h : w.Counted threads) (hall : identities threads' = identities threads)
    (hunread : unreadIdentities threads' = unreadIdentities threads) : w.Counted threads' := ⟨hall ▸ h.1, hunread ▸ h.2⟩

theorem filter_of_not_lists (h : threads.any (Thread.is identity) = false) : (threads.filter fun t => !t.is identity) = threads :=
  List.filter_eq_self.mpr fun t ht => by
    have := List.any_eq_false.mp h t ht
    simpa using this

theorem threads_remove : (removeGtdThreadFromSections s identity states).threads key =
    if key ∈ states then (s.threads key).filter fun t => !t.is identity else s.threads key := by
  simp only [Sections.threads, removeGtdThreadFromSections]
  by_cases hkey : key ∈ states
  · rw [if_pos hkey, if_pos hkey]
    cases s.section_ key <;> rfl
  · rw [if_neg hkey, if_neg hkey]

/-- Rows that a removal leaves in a section of the rollup are rows of other threads. -/
theorem threads_remove_of (hkey : key ∈ states ∨ s.lists identity key = false) :
    (removeGtdThreadFromSections s identity states).threads key = (s.threads key).filter fun t => !t.is identity := by
  rw [threads_remove]
  split
  · rfl
  next hnot => exact (filter_of_not_lists (hkey.resolve_left hnot)).symm

theorem waits_any (p : Thread δ → Bool) : s.waits.any p = waitingKeys.any fun key => (s.threads key).any p := by
  simp [Sections.waits, waitingKeys]

theorem any_waits (p : SectionKey → Bool) :
    (states.any fun key => key.waits && p key) = true ↔ .watch ∈ states ∧ p .watch = true ∨ .delegated ∈ states ∧ p .delegated = true := by
  simp only [List.any_eq_true, Bool.and_eq_true]
  constructor
  · rintro ⟨key, hmem, hwaits, hp⟩
    cases key with
    | watch => exact .inl ⟨hmem, hp⟩
    | delegated => exact .inr ⟨hmem, hp⟩
    | todo | someday | reference => cases hwaits
  · rintro (⟨hmem, hp⟩ | ⟨hmem, hp⟩)
    · exact ⟨.watch, hmem, rfl, hp⟩
    · exact ⟨.delegated, hmem, rfl, hp⟩

theorem listsUnread_lists (h : s.listsUnread identity key = true) : s.lists identity key = true := by
  obtain ⟨t, ht, hp⟩ := List.any_eq_true.mp h
  exact List.any_eq_true.mpr ⟨t, ht, (Bool.and_eq_true _ _ ▸ hp).1⟩

/-- A removal that meets the rollup takes all rows of the thread from it. -/
theorem waits_removed (htogether : s.lists identity .watch → s.lists identity .delegated → (.watch ∈ states ↔ .delegated ∈ states))
    (h : (states.any fun key => key.waits && s.lists identity key) = true) :
    (.watch ∈ states ∨ s.lists identity .watch = false) ∧ (.delegated ∈ states ∨ s.lists identity .delegated = false) := by
  rcases (any_waits _).mp h with ⟨hmem, hlists⟩ | ⟨hmem, hlists⟩
  · refine ⟨.inl hmem, ?_⟩
    cases hother : s.lists identity .delegated with
    | false => exact .inr rfl
    | true => exact .inl ((htogether hlists hother).mp hmem)
  · refine ⟨?_, .inl hmem⟩
    cases hother : s.lists identity .watch with
    | false => exact .inr rfl
    | true => exact .inl ((htogether hother hlists).mpr hmem)

theorem waits_remove (h : (.watch ∈ states ∨ s.lists identity .watch = false) ∧ (.delegated ∈ states ∨ s.lists identity .delegated = false)) :
    (removeGtdThreadFromSections s identity states).waits = s.waits.filter fun t => !t.is identity := by
  rw [Sections.waits, threads_remove_of h.1, threads_remove_of h.2, Sections.waits, List.filter_append]

/-- A removal that does not meet the rollup leaves its rows. -/
theorem waits_kept (h : (states.any fun key => key.waits && s.lists identity key) = false) :
    (removeGtdThreadFromSections s identity states).waits = s.waits := by
  have hkey : ∀ key, key.waits = true → (removeGtdThreadFromSections s identity states).threads key = s.threads key := fun key hwaits => by
    rw [threads_remove]
    split
    next hmem =>
      have hnot := List.any_eq_false.mp h key hmem
      simp only [hwaits, Bool.true_and] at hnot
      exact filter_of_not_lists (Bool.eq_false_iff.mpr hnot)
    · rfl
  rw [Sections.waits, hkey .watch rfl, hkey .delegated rfl, Sections.waits]

theorem unread_any (h : (.watch ∈ states ∨ s.lists identity .watch = false) ∧ (.delegated ∈ states ∨ s.lists identity .delegated = false)) :
    (states.any fun key => key.waits && s.listsUnread identity key) = s.waits.any (Thread.isUnread identity) := by
  rw [Bool.eq_iff_iff, any_waits, waits_any]
  simp only [waitingKeys, List.any_cons, List.any_nil, Bool.or_false, Bool.or_eq_true]
  have hmem : ∀ key, (key ∈ states ∨ s.lists identity key = false) → s.listsUnread identity key = true → key ∈ states := fun key hor hunread =>
    hor.resolve_right fun hnot => by simp [listsUnread_lists hunread] at hnot
  constructor
  · rintro (⟨-, hp⟩ | ⟨-, hp⟩)
    · exact .inl hp
    · exact .inr hp
  · rintro (hp | hp)
    · exact .inl ⟨hmem _ h.1 hp, hp⟩
    · exact .inr ⟨hmem _ h.2 hp, hp⟩

theorem lists_waits (h : (states.any fun key => key.waits && s.lists identity key) = true) : s.waits.any (Thread.is identity) = true := by
  rw [waits_any]
  simp only [waitingKeys, List.any_cons, List.any_nil, Bool.or_false, Bool.or_eq_true]
  exact ((any_waits _).mp h).imp (·.2) (·.2)

theorem Sections.Counted.remove (h : s.Counted)
    (htogether : s.lists identity .watch → s.lists identity .delegated → (.watch ∈ states ↔ .delegated ∈ states)) :
    (removeGtdThreadFromSections s identity states).Counted := by
  refine ⟨fun key sec hsec => ?_, fun w hw => ?_⟩
  · simp only [removeGtdThreadFromSections] at hsec
    split at hsec
    · obtain ⟨old, hold, rfl⟩ := Option.map_eq_some_iff.mp hsec
      exact (h.sections key old hold).remove
    · exact h.sections key sec hsec
  · simp only [removeGtdThreadFromSections] at hw
    split at hw
    next hany =>
      have hremoved := waits_removed htogether hany
      obtain ⟨old, hold, rfl⟩ := Option.map_eq_some_iff.mp hw
      rw [waits_remove hremoved, unread_any hremoved]
      exact (h.waiting old hold).remove (lists_waits hany)
    next hany =>
      rw [waits_kept (Bool.eq_false_iff.mpr hany)]
      exact h.waiting w hw

/-! ## Coming back -/

theorem identities_cons : identities (t :: threads) = insert t.identity (identities threads) := by simp [identities]

theorem unreadIdentities_cons : unreadIdentities (t :: threads) = if t.isRead then unreadIdentities threads else
    insert t.identity (unreadIdentities threads) := by
  cases hread : t.isRead <;> simp [unreadIdentities, hread, identities_cons]

theorem identities_perm {threads' : List (Thread δ)} (h : threads.Perm threads') : identities threads = identities threads' :=
  List.toFinset_eq_of_perm _ _ (h.map _)

theorem unreadIdentities_perm {threads' : List (Thread δ)} (h : threads.Perm threads') : unreadIdentities threads = unreadIdentities threads' :=
  identities_perm (h.filter _)

theorem identities_append {threads' : List (Thread δ)} : identities (threads ++ threads') = identities threads ∪ identities threads' := by
  simp [identities]

theorem unreadIdentities_append {threads' : List (Thread δ)} :
    unreadIdentities (threads ++ threads') = unreadIdentities threads ∪ unreadIdentities threads' := by
  rw [unreadIdentities, List.filter_append, identities_append, unreadIdentities, unreadIdentities]

def Snapshot.Ok (snapshot : Snapshot δ) : Prop := ∀ key, ∀ row ∈ snapshot.removedByState key, row.thread.identity = snapshot.identity

theorem Snapshot.Ok.of_removal : (snapshotGtdThreadRemoval s identity states).Ok := fun key row hrow => by
  simp only [snapshotGtdThreadRemoval] at hrow
  split at hrow
  · simp only [rowsOf, List.mem_map, List.mem_filter] at hrow
    obtain ⟨p, ⟨-, his⟩, rfl⟩ := hrow
    exact is_iff.mp his
  · cases hrow

variable {snapshot : Snapshot δ}

theorem threads_restore : (restoreGtdThreadRemoval s snapshot).threads key =
    match s.section_ key with
    | some sec => (sec.restore snapshot.identity (snapshot.removedByState key)).threads
    | none => [] := by
  simp only [Sections.threads, restoreGtdThreadRemoval]
  cases s.section_ key <;> rfl

/-- What comes back to one section. -/
theorem identities_restore (hok : snapshot.Ok) :
    identities ((restoreGtdThreadRemoval s snapshot).threads key) =
        (if snapshot.restores s key then insert snapshot.identity (identities (s.threads key)) else identities (s.threads key)) ∧
      unreadIdentities ((restoreGtdThreadRemoval s snapshot).threads key) =
        if snapshot.restoresUnread s key then insert snapshot.identity (unreadIdentities (s.threads key)) else unreadIdentities (s.threads key) := by
  have hkeyOk := hok key
  rw [threads_restore]
  unfold Snapshot.restoresUnread Snapshot.restores Sections.lists Sections.threads
  cases hsec : s.section_ key with
  | none => simp
  | some sec =>
    simp only [Option.isSome_some, Bool.true_and]
    cases hlists : sec.threads.any (Thread.is snapshot.identity) with
    | true => simp [restore_listed hlists]
    | false =>
      cases hrows : snapshot.removedByState key with
      | nil => simp [Section.restore]
      | cons row rows =>
        have hrow : row.thread.identity = snapshot.identity := hkeyOk row (hrows ▸ List.mem_cons_self)
        rw [restore_cons hlists hrow]
        simp only [identities_perm insert_perm, unreadIdentities_perm insert_perm, identities_cons, unreadIdentities_cons, hrow]
        cases hread : row.thread.isRead <;> simp [hread]

theorem Sections.Counted.restore (h : s.Counted) (hdistinct : s.Distinct) (hok : snapshot.Ok)
    (htogether : ¬(snapshot.restores s .watch ∧ s.lists snapshot.identity .delegated) ∧
      ¬(snapshot.restores s .delegated ∧ s.lists snapshot.identity .watch)) :
    (restoreGtdThreadRemoval s snapshot).Counted := by
  refine ⟨fun key sec hsec => ?_, fun w hw => ?_⟩
  · obtain ⟨old, hold, rfl⟩ := Option.map_eq_some_iff.mp hsec
    exact (restore_counted_nodup (h.sections key old hold) (hdistinct key old hold) (hok key)).1
  · have hids : ∀ key, _ := fun key => @identities_restore _ s key _ hok
    have hall : identities (restoreGtdThreadRemoval s snapshot).waits =
        if waitingKeys.any (snapshot.restores s) then insert snapshot.identity (identities s.waits) else identities s.waits := by
      rw [Sections.waits, identities_append, (hids .watch).1, (hids .delegated).1, Sections.waits, identities_append]
      simp only [waitingKeys, List.any_cons, List.any_nil, Bool.or_false]
      cases snapshot.restores s .watch <;> cases snapshot.restores s .delegated <;> simp
    have hunread : unreadIdentities (restoreGtdThreadRemoval s snapshot).waits =
        if waitingKeys.any (snapshot.restoresUnread s) then insert snapshot.identity (unreadIdentities s.waits) else unreadIdentities s.waits := by
      rw [Sections.waits, unreadIdentities_append, (hids .watch).2, (hids .delegated).2, Sections.waits, unreadIdentities_append]
      simp only [waitingKeys, List.any_cons, List.any_nil, Bool.or_false]
      cases snapshot.restoresUnread s .watch <;> cases snapshot.restoresUnread s .delegated <;> simp
    have hnot : ∀ key, snapshot.restores s key = true → s.lists snapshot.identity key = false := fun key hkey => by
      simp only [Snapshot.restores, Bool.and_eq_true, Bool.not_eq_true'] at hkey
      exact hkey.1.2
    simp only [restoreGtdThreadRemoval] at hw
    split at hw
    next hany =>
      obtain ⟨old, hold, rfl⟩ := Option.map_eq_some_iff.mp hw
      -- no section of the rollup lists the thread
      have hnone : s.waits.any (Thread.is snapshot.identity) = false := by
        rw [waits_any]
        simp only [waitingKeys, List.any_cons, List.any_nil, Bool.or_false, Bool.or_eq_true, Bool.or_eq_false_iff] at hany ⊢
        rcases hany with hkey | hkey
        · exact ⟨hnot _ hkey, Bool.eq_false_iff.mpr fun hlists => htogether.1 ⟨hkey, hlists⟩⟩
        · exact ⟨Bool.eq_false_iff.mpr fun hlists => htogether.2 ⟨hkey, hlists⟩, hnot _ hkey⟩
      have hfresh : snapshot.identity ∉ identities s.waits := fun hmem => by simp [mem_identities.mp hmem] at hnone
      have hfreshUnread : snapshot.identity ∉ unreadIdentities s.waits := fun hmem => by
        obtain ⟨t, ht, his⟩ := List.any_eq_true.mp (mem_unreadIdentities.mp hmem)
        exact hfresh (mem_identities.mpr (List.any_eq_true.mpr ⟨t, ht, (Bool.and_eq_true _ _ ▸ his).1⟩))
      refine ⟨?_, ?_⟩
      · rw [hall, if_pos hany, Finset.card_insert_of_notMem hfresh, (h.waiting old hold).1]
      · rw [hunread, (h.waiting old hold).2]
        split
        · rw [Finset.card_insert_of_notMem hfreshUnread]
        · rfl
    next hany =>
      refine (h.waiting w hw).of_identities (by rw [hall, if_neg hany]) ?_
      rw [hunread, if_neg]
      intro hunreadAny
      obtain ⟨key, hkey, hp⟩ := List.any_eq_true.mp hunreadAny
      exact hany (List.any_eq_true.mpr ⟨key, hkey, (Bool.and_eq_true _ _ ▸ hp).1⟩)

/-! ## Read and unread -/

theorem threads_setRead : (setGtdThreadReadInSections s identity isRead).threads key = (s.threads key).map (Thread.setRead identity isRead) := by
  simp only [Sections.threads, setGtdThreadReadInSections]
  cases s.section_ key <;> rfl

theorem waits_setRead : (setGtdThreadReadInSections s identity isRead).waits = s.waits.map (Thread.setRead identity isRead) := by
  rw [Sections.waits, threads_setRead, threads_setRead, Sections.waits, List.map_append]

theorem Thread.setRead_identity : (t.setRead identity isRead).identity = t.identity := by
  unfold Thread.setRead
  split <;> rfl

theorem setRead_of_no_flip (h : threads.any (Thread.flips identity isRead) = false) : threads.map (Thread.setRead identity isRead) = threads := by
  conv_rhs => rw [← List.map_id threads]
  exact List.map_congr_left fun t ht => if_neg (Bool.eq_false_iff.mp (by simpa using List.any_eq_false.mp h t ht))

theorem identities_setRead : identities (threads.map (Thread.setRead identity isRead)) = identities threads := by
  rw [identities, identities, List.map_map]
  congr 1
  exact List.map_congr_left fun t _ => Thread.setRead_identity

theorem Thread.setRead_isRead : (t.setRead identity isRead).isRead = if t.is identity then isRead else t.isRead := by
  by_cases his : t.is identity = true
  · by_cases hread : t.isRead = isRead <;> simp [Thread.setRead, Thread.flips, his, hread]
  · simp [Thread.setRead, Thread.flips, his]

theorem mem_unreadIdentities_map {x : String} : x ∈ unreadIdentities (threads.map (Thread.setRead identity isRead)) ↔
    ∃ t ∈ threads, t.identity = x ∧ (if t.is identity then isRead else t.isRead) = false := by
  simp only [unreadIdentities, identities, List.mem_toFinset, List.mem_map, List.mem_filter, Bool.not_eq_true']
  constructor
  · rintro ⟨t', ⟨⟨t, ht, rfl⟩, hread⟩, rfl⟩
    exact ⟨t, ht, Thread.setRead_identity.symm, Thread.setRead_isRead ▸ hread⟩
  · rintro ⟨t, ht, rfl, hread⟩
    exact ⟨t.setRead identity isRead, ⟨⟨t, ht, rfl⟩, Thread.setRead_isRead.trans hread⟩, Thread.setRead_identity⟩

theorem mem_unread {x : String} : x ∈ unreadIdentities threads ↔ ∃ t ∈ threads, t.identity = x ∧ t.isRead = false := by
  simp only [unreadIdentities, identities, List.mem_toFinset, List.mem_map, List.mem_filter, Bool.not_eq_true']
  exact ⟨fun ⟨t, ⟨ht, hread⟩, heq⟩ => ⟨t, ht, heq, hread⟩, fun ⟨t, ht, heq, hread⟩ => ⟨t, ⟨ht, hread⟩, heq⟩⟩

/-- The thread read: none of its rows is unread. -/
theorem unreadIdentities_setRead : unreadIdentities (threads.map (Thread.setRead identity true)) = (unreadIdentities threads).erase identity := by
  ext x
  rw [mem_unreadIdentities_map, Finset.mem_erase, mem_unread]
  constructor
  · rintro ⟨t, ht, rfl, hread⟩
    cases his : t.is identity with
    | true => simp [his] at hread
    | false => exact ⟨beq_eq_false_iff_ne.mp his, t, ht, rfl, by simpa [his] using hread⟩
  · rintro ⟨hne, t, ht, rfl, hread⟩
    have his : t.is identity = false := beq_eq_false_iff_ne.mpr hne
    exact ⟨t, ht, rfl, by simpa [his] using hread⟩

/-- The thread unread: all of its rows are. -/
theorem unreadIdentities_setUnread (h : threads.any (Thread.is identity) = true) :
    unreadIdentities (threads.map (Thread.setRead identity false)) = insert identity (unreadIdentities threads) := by
  ext x
  rw [mem_unreadIdentities_map, Finset.mem_insert, mem_unread]
  constructor
  · rintro ⟨t, ht, rfl, hread⟩
    cases his : t.is identity with
    | true => exact .inl (is_iff.mp his)
    | false => exact .inr ⟨t, ht, rfl, by simpa [his] using hread⟩
  · rintro (rfl | ⟨t, ht, rfl, hread⟩)
    · obtain ⟨t, ht, his⟩ := List.any_eq_true.mp h
      exact ⟨t, ht, is_iff.mp his, by rw [if_pos his]⟩
    · exact ⟨t, ht, rfl, by split <;> trivial⟩

theorem any_flips_true : threads.any (Thread.flips identity true) = threads.any (Thread.isUnread identity) := by
  congr 1
  funext t
  simp only [Thread.flips, Thread.isUnread]
  cases t.isRead <;> rfl

/-- A section that lists the thread once lists it unread or can mark it unread. -/
theorem unread_of_flips (hnodup : (threads.map Thread.identity).Nodup) (h : threads.any (Thread.flips identity false) = true) :
    threads.any (Thread.isUnread identity) = false := by
  obtain ⟨t, ht, hflips⟩ := List.any_eq_true.mp h
  simp only [Thread.flips, Bool.and_eq_true, bne_iff_ne, ne_eq, Bool.not_eq_false] at hflips
  by_contra hunread
  obtain ⟨t', ht', hp⟩ := List.any_eq_true.mp (Bool.not_eq_false _ ▸ hunread)
  simp only [Thread.isUnread, Bool.and_eq_true, Bool.not_eq_true'] at hp
  obtain rfl : t = t' := List.inj_on_of_nodup_map hnodup ht ht' ((is_iff.mp hflips.1).trans (is_iff.mp hp.1).symm)
  simp [hp.2] at hflips

theorem Sections.threads_nodup (h : s.Distinct) : ((s.threads key).map Thread.identity).Nodup := by
  unfold Sections.threads
  cases hsec : s.section_ key with
  | none => exact List.nodup_nil
  | some sec => exact h key sec hsec

theorem lists_of_flips (h : (s.threads key).any (Thread.flips identity isRead) = true) : s.lists identity key = true := by
  obtain ⟨t, ht, hflips⟩ := List.any_eq_true.mp h
  exact List.any_eq_true.mpr ⟨t, ht, (Bool.and_eq_true _ _ ▸ hflips).1⟩

/-- Marked unread, and none of its rows in the rollup was. -/
theorem unread_of_flips_waits (hdistinct : s.Distinct) (htogether : s.lists identity .watch → s.lists identity .delegated →
      (s.listsUnread identity .watch ↔ s.listsUnread identity .delegated))
    (h : s.waits.any (Thread.flips identity false) = true) : s.waits.any (Thread.isUnread identity) = false := by
  rw [waits_any] at h ⊢
  simp only [waitingKeys, List.any_cons, List.any_nil, Bool.or_false, Bool.or_eq_true, Bool.or_eq_false_iff] at h ⊢
  have hother : ∀ key, s.listsUnread identity key = false → (s.threads key).any (Thread.isUnread identity) = false := fun key hkey => hkey
  rcases h with hkey | hkey
  · have hread := unread_of_flips (Sections.threads_nodup hdistinct) hkey
    refine ⟨hread, Bool.eq_false_iff.mpr fun hunread => ?_⟩
    have := (htogether (lists_of_flips hkey) (listsUnread_lists hunread)).mpr hunread
    exact Bool.eq_false_iff.mp hread this
  · have hread := unread_of_flips (Sections.threads_nodup hdistinct) hkey
    refine ⟨Bool.eq_false_iff.mpr fun hunread => ?_, hread⟩
    have := (htogether (listsUnread_lists hunread) (lists_of_flips hkey)).mp hunread
    exact Bool.eq_false_iff.mp hread this

theorem Sections.Counted.setRead (h : s.Counted) (hdistinct : s.Distinct) (htogether : isRead ∨ (s.lists identity .watch → s.lists identity .delegated →
      (s.listsUnread identity .watch ↔ s.listsUnread identity .delegated))) : (setGtdThreadReadInSections s identity isRead).Counted := by
  refine ⟨fun key sec hsec => ?_, fun w hw => ?_⟩
  · obtain ⟨old, hold, rfl⟩ := Option.map_eq_some_iff.mp hsec
    exact (h.sections key old hold).setRead
  · rw [waits_setRead]
    simp only [setGtdThreadReadInSections, ← waits_any (Thread.flips identity isRead)] at hw
    split at hw
    next hany =>
      obtain ⟨old, hold, rfl⟩ := Option.map_eq_some_iff.mp hw
      obtain ⟨htotal, hunread⟩ := h.waiting old hold
      refine ⟨htotal.trans (by rw [identities_setRead]), ?_⟩
      cases isRead with
      | true =>
        rw [any_flips_true] at hany
        rw [unreadIdentities_setRead, Finset.card_erase_of_mem (mem_unreadIdentities.mpr hany), ← hunread]
        rfl
      | false =>
        have hnone := unread_of_flips_waits hdistinct (htogether.resolve_left Bool.false_ne_true) hany
        have hfresh : identity ∉ unreadIdentities s.waits := fun hmem => by simp [mem_unreadIdentities.mp hmem] at hnone
        have hlists : s.waits.any (Thread.is identity) = true := by
          obtain ⟨t, ht, hflips⟩ := List.any_eq_true.mp hany
          exact List.any_eq_true.mpr ⟨t, ht, (Bool.and_eq_true _ _ ▸ hflips).1⟩
        rw [unreadIdentities_setUnread hlists, Finset.card_insert_of_notMem hfresh, ← hunread]
        rfl
    next hany =>
      rw [setRead_of_no_flip (Bool.eq_false_iff.mpr hany)]
      exact h.waiting w hw

theorem Sections.Distinct.remove (h : s.Distinct) : (removeGtdThreadFromSections s identity states).Distinct := fun key sec hsec => by
  simp only [removeGtdThreadFromSections] at hsec
  split at hsec
  · obtain ⟨old, hold, rfl⟩ := Option.map_eq_some_iff.mp hsec
    exact remove_nodup (h key old hold)
  · exact h key sec hsec

theorem Sections.Distinct.setRead (h : s.Distinct) : (setGtdThreadReadInSections s identity isRead).Distinct := fun key sec hsec => by
  obtain ⟨old, hold, rfl⟩ := Option.map_eq_some_iff.mp hsec
  rw [Section.setRead, setRead_identities]
  exact h key old hold

structure Inv (s : State δ) : Prop where
  counted : s.sections.Counted
  distinct : s.sections.Distinct
  snapshots : ∀ snapshot ∈ s.snapshots, snapshot.Ok

theorem invariant : (system δ).Invariant together Inv where
  init h := ⟨h.1, h.2.1, by simp [h.2.2]⟩
  step {s l s'} hs hg hstep := by
    cases l with
    | remove identity states =>
      cases hstep
      refine ⟨hs.counted.remove hg, hs.distinct.remove, fun snapshot hmem => ?_⟩
      rcases List.mem_append.mp hmem with hmem | hmem
      · exact hs.snapshots snapshot hmem
      · exact List.mem_singleton.mp hmem ▸ .of_removal
    | restore i =>
      obtain ⟨snapshot, hget, rfl⟩ := Option.map_eq_some_iff.mp hstep
      have hok := hs.snapshots snapshot (List.mem_of_getElem? hget)
      refine ⟨hs.counted.restore hs.distinct hok (hg snapshot hget), fun key sec hsec => ?_, hs.snapshots⟩
      obtain ⟨old, hold, rfl⟩ := Option.map_eq_some_iff.mp hsec
      exact (restore_counted_nodup (hs.counted.sections key old hold) (hs.distinct key old hold) (hok key)).2
    | setRead identity isRead =>
      cases hstep
      exact ⟨hs.counted.setRead hs.distinct hg, hs.distinct.setRead, hs.snapshots⟩

/-! ## Restoring at once -/

theorem insertIdx_length_append {α : Type u} (A B : List α) (a : α) : (A ++ B).insertIdx A.length a = A ++ a :: B := by
  induction A with
  | nil => rfl
  | cons x A ih => simpa using ih

theorem zipIdx_filter_nil {n : Nat} (h : threads.any (Thread.is identity) = false) : ((threads.zipIdx n).filter fun p => p.1.is identity) = [] :=
  List.filter_eq_nil_iff.mpr fun p hp => List.any_eq_false.mp h p.1 (List.fst_mem_of_mem_zipIdx hp)

theorem rowsOf_nil (h : threads.any (Thread.is identity) = false) : rowsOf identity threads = [] := by
  rw [rowsOf, zipIdx_filter_nil h, List.map_nil]

theorem rowsOf_eq (A B : List (Thread δ)) (ht : t.is identity = true) (hA : A.any (Thread.is identity) = false) (hB : B.any (Thread.is identity) = false) :
    rowsOf identity (A ++ t :: B) = [⟨A.length, t⟩] := by
  simp [rowsOf, List.zipIdx_append, List.zipIdx_cons, zipIdx_filter_nil hA, zipIdx_filter_nil hB, ht]

/-- A thread that a section lists stands in it alone. -/
theorem split_of_lists (hnodup : (threads.map Thread.identity).Nodup) (h : threads.any (Thread.is identity) = true) :
    ∃ A t B, threads = A ++ t :: B ∧ t.is identity = true ∧ A.any (Thread.is identity) = false ∧ B.any (Thread.is identity) = false := by
  obtain ⟨t, ht, his⟩ := List.any_eq_true.mp h
  obtain ⟨A, B, rfl⟩ := List.append_of_mem ht
  rw [List.map_append, List.map_cons, List.nodup_middle, List.nodup_cons, is_iff.mp his] at hnodup
  refine ⟨A, t, B, rfl, his, Bool.eq_false_iff.mpr fun hA => hnodup.1 ?_, Bool.eq_false_iff.mpr fun hB => hnodup.1 ?_⟩
  · exact List.mem_append_left _ (lists_iff.mp hA)
  · exact List.mem_append_right _ (lists_iff.mp hB)

theorem countP_middle (p : Thread δ → Bool) (A B : List (Thread δ)) :
    (A ++ t :: B).countP p = (A ++ B).countP p + if p t then 1 else 0 := by
  simp only [List.countP_append, List.countP_cons]
  omega

theorem restore_remove_section (hcounted : sec.Counted) (hnodup : (sec.threads.map Thread.identity).Nodup) :
    (sec.remove identity).restore identity (rowsOf identity sec.threads) = sec := by
  cases hlists : sec.threads.any (Thread.is identity) with
  | false =>
    have hzero : sec.threads.countP (Thread.is identity) = 0 := List.countP_eq_zero.mpr fun t ht => List.any_eq_false.mp hlists t ht
    have hzeroUnread : (sec.threads.countP fun t => t.is identity && !t.isRead) = 0 := List.countP_eq_zero.mpr fun t ht => by
      simp [Bool.eq_false_iff.mpr (List.any_eq_false.mp hlists t ht)]
    rw [rowsOf_nil hlists, Section.restore, List.foldl_nil, Section.remove, hzero, hzeroUnread, filter_of_not_lists hlists]
    rfl
  | true =>
    obtain ⟨A, t, B, hthreads, ht, hA, hB⟩ := split_of_lists hnodup hlists
    have hfilter : (sec.threads.filter fun t => !t.is identity) = A ++ B := by
      rw [hthreads, List.filter_append, List.filter_cons_of_neg (by simp [ht]), filter_of_not_lists hA, filter_of_not_lists hB]
    have hgone : (sec.remove identity).threads.any (Thread.is identity) = false := by
      rw [Section.remove, hfilter, List.any_append, hA, hB]
      rfl
    have hzero : ∀ p : Thread δ → Bool, (∀ t, p t = true → t.is identity = true) → (A ++ B).countP p = 0 := fun p hp =>
      List.countP_eq_zero.mpr fun t ht hpt => by
        have := hp t hpt
        rcases List.mem_append.mp ht with ht | ht
        · exact List.any_eq_false.mp hA t ht this
        · exact List.any_eq_false.mp hB t ht this
    have hcount : sec.threads.countP (Thread.is identity) = 1 := by rw [hthreads, countP_middle, hzero _ fun _ h => h, if_pos ht]
    have hcountUnread : (sec.threads.countP fun t => t.is identity && !t.isRead) = if t.isRead then 0 else 1 := by
      rw [hthreads, countP_middle, hzero _ fun _ h => (Bool.and_eq_true _ _ ▸ h).1, ht]
      cases t.isRead <;> rfl
    have hunread : sec.unread = (A ++ B).countP (fun t => !t.isRead) + if t.isRead then 0 else 1 := by
      rw [hcounted.2, hthreads, countP_middle]
      cases t.isRead <;> rfl
    have htotal : sec.total = (A ++ B).length + 1 := by
      rw [hcounted.1, hthreads]
      simp only [List.length_append, List.length_cons]
      omega
    rw [show rowsOf identity sec.threads = [⟨A.length, t⟩] by rw [hthreads, rowsOf_eq A B ht hA hB], restore_cons hgone (is_iff.mp ht)]
    obtain ⟨total, unread, threads⟩ := sec
    simp only [Section.remove] at hfilter hcount hcountUnread hunread htotal hthreads ⊢
    rw [hfilter, hcount, hcountUnread, htotal, hunread, hthreads, Nat.min_eq_left (by simp), insertIdx_length_append]
    simp

/-- A row comes back where one was removed. -/
theorem restores_removed :
    (snapshotGtdThreadRemoval s identity states).restores (removeGtdThreadFromSections s identity states) key =
      (decide (key ∈ states) && s.lists identity key) := by
  unfold Snapshot.restores Sections.lists
  rw [threads_remove]
  simp only [snapshotGtdThreadRemoval]
  by_cases hkey : key ∈ states
  · simp only [if_pos hkey, decide_eq_true hkey, Bool.true_and]
    have hgone : ((s.threads key).filter fun t => !t.is identity).any (Thread.is identity) = false :=
      List.any_eq_false.mpr fun t ht => by simpa using (List.mem_filter.mp ht).2
    rw [hgone]
    cases hlists : (s.threads key).any (Thread.is identity) with
    | false => simp [rowsOf_nil hlists]
    | true =>
      have hsome : ((removeGtdThreadFromSections s identity states).section_ key).isSome = true := by
        simp only [removeGtdThreadFromSections, if_pos hkey, Option.isSome_map]
        unfold Sections.threads at hlists
        cases hsec : s.section_ key with
        | none => simp [hsec] at hlists
        | some sec => rfl
      obtain ⟨t, ht, his⟩ := List.any_eq_true.mp hlists
      obtain ⟨i, hi⟩ := List.mem_iff_getElem?.mp ht
      have hrow : (⟨i, t⟩ : Row δ) ∈ rowsOf identity (s.threads key) :=
        List.mem_map.mpr ⟨(t, i), List.mem_filter.mpr ⟨List.mem_zipIdx_iff_getElem?.mpr (by simpa using hi), his⟩, rfl⟩
      have hne : (rowsOf identity (s.threads key)).isEmpty = false := by
        cases hrows : rowsOf identity (s.threads key) with
        | nil =>
          rw [hrows] at hrow
          cases hrow
        | cons => rfl
      rw [hsome, hne]
      rfl
  · simp [hkey]

theorem restoresUnread_removed (hdistinct : s.Distinct) :
    (snapshotGtdThreadRemoval s identity states).restoresUnread (removeGtdThreadFromSections s identity states) key =
      (decide (key ∈ states) && s.listsUnread identity key) := by
  rw [Snapshot.restoresUnread, restores_removed]
  by_cases hkey : key ∈ states
  · simp only [snapshotGtdThreadRemoval, if_pos hkey, decide_eq_true hkey, Bool.true_and]
    cases hlists : s.lists identity key with
    | false =>
      have hnone : s.listsUnread identity key = false := Bool.eq_false_iff.mpr fun h => by simp [listsUnread_lists h] at hlists
      rw [hnone, Bool.false_and]
    | true =>
      obtain ⟨A, t, B, hthreads, ht, hA, hB⟩ := split_of_lists (Sections.threads_nodup hdistinct) hlists
      have hAB : ∀ C : List (Thread δ), C.any (Thread.is identity) = false → (C.any fun t => t.is identity && !t.isRead) = false := fun C hC =>
        List.any_eq_false.mpr fun t ht hp => List.any_eq_false.mp hC t ht (Bool.and_eq_true _ _ ▸ hp).1
      rw [Sections.listsUnread, hthreads, rowsOf_eq A B ht hA hB, List.any_append, List.any_cons, hAB A hA, hAB B hB, ht]
      simp
  · simp [hkey]

theorem any_restored (p : SectionKey → Bool) :
    (waitingKeys.any fun key => decide (key ∈ states) && p key) = states.any fun key => key.waits && p key := by
  rw [Bool.eq_iff_iff, any_waits]
  simp [waitingKeys]

/-- What was removed comes back whole, and to the rollup as well. -/
theorem restore_remove (h : s.Counted) (hdistinct : s.Distinct) (identity : String) (states : List SectionKey) :
    restoreGtdThreadRemoval (removeGtdThreadFromSections s identity states) (snapshotGtdThreadRemoval s identity states) = s := by
  have hsections : ∀ key, ((removeGtdThreadFromSections s identity states).section_ key).map
      (Section.restore identity ((snapshotGtdThreadRemoval s identity states).removedByState key)) = s.section_ key := fun key => by
    simp only [removeGtdThreadFromSections, snapshotGtdThreadRemoval]
    by_cases hkey : key ∈ states
    · rw [if_pos hkey, if_pos hkey]
      unfold Sections.threads
      cases hsec : s.section_ key with
      | none => rfl
      | some sec => exact congrArg some (restore_remove_section (h.sections key sec hsec) (hdistinct key sec hsec))
    · rw [if_neg hkey, if_neg hkey]
      cases s.section_ key <;> rfl
  have hany : waitingKeys.any ((snapshotGtdThreadRemoval s identity states).restores (removeGtdThreadFromSections s identity states)) =
      states.any fun key => key.waits && s.lists identity key := by
    rw [← any_restored]
    exact congrArg _ (funext fun key => restores_removed)
  have hanyUnread : waitingKeys.any ((snapshotGtdThreadRemoval s identity states).restoresUnread (removeGtdThreadFromSections s identity states)) =
      states.any fun key => key.waits && s.listsUnread identity key := by
    rw [← any_restored]
    exact congrArg _ (funext fun key => restoresUnread_removed hdistinct)
  have hwaiting : (restoreGtdThreadRemoval (removeGtdThreadFromSections s identity states) (snapshotGtdThreadRemoval s identity states)).waiting =
      s.waiting := by
    simp only [restoreGtdThreadRemoval, hany, hanyUnread]
    by_cases hremoved : (states.any fun key => key.waits && s.lists identity key) = true
    · simp only [removeGtdThreadFromSections, if_pos hremoved]
      cases hw : s.waiting with
      | none => rfl
      | some w =>
        obtain ⟨htotal, hunread⟩ := h.waiting w hw
        have hpos : 0 < w.total := htotal ▸ Finset.card_pos.mpr ⟨_, mem_identities.mpr (lists_waits hremoved)⟩
        have hunreadPos : (states.any fun key => key.waits && s.listsUnread identity key) = true → 0 < w.unread := fun hp => by
          rw [hunread]
          refine Finset.card_pos.mpr ⟨identity, mem_unreadIdentities.mpr ?_⟩
          rw [waits_any]
          simp only [waitingKeys, List.any_cons, List.any_nil, Bool.or_false, Bool.or_eq_true]
          exact ((any_waits _).mp hp).imp (·.2) (·.2)
        obtain ⟨total, unread⟩ := w
        simp only [Option.map_some, Option.some.injEq, Waiting.mk.injEq]
        simp only at hpos hunreadPos
        refine ⟨by omega, ?_⟩
        split
        next hp =>
          have := hunreadPos hp
          omega
        · omega
    · simp only [removeGtdThreadFromSections, if_neg hremoved]
  exact congrArg₂ Sections.mk (funext hsections) hwaiting

/-- The counts in every state that is reached while the rows of a thread in watch and delegated come, go and change together. -/
theorem counts_follow {s : State δ} (h : (system δ).ReachesUnder together s) :
    s.sections.Counted ∧ ∀ identity states,
      restoreGtdThreadRemoval (removeGtdThreadFromSections s.sections identity states) (snapshotGtdThreadRemoval s.sections identity states) =
        s.sections := by
  have hs := invariant.reachesUnder h
  exact ⟨hs.counted, restore_remove hs.counted hs.distinct⟩

def head : Thread Unit := ⟨some "m", "1", false, ()⟩

/-- One unread thread, in both sections of the rollup. -/
def both : State Unit where
  sections := {
    section_ := fun key => if key.waits then some ⟨1, 1, [head]⟩ else some ⟨0, 0, []⟩
    waiting := some ⟨1, 1⟩ }

theorem both_init : (system Unit).init both := by
  refine ⟨⟨fun key sec hsec => ?_, fun w hw => ?_⟩, fun key sec hsec => ?_, rfl⟩
  · cases key <;> cases hsec <;> exact ⟨rfl, rfl⟩
  · cases hw
    exact ⟨by decide, by decide⟩
  · cases key <;> cases hsec <;> decide

theorem counts_follow_both :
    (removeGtdThreadFromSections both.sections "m" [.delegated, .watch]).Counted := by
  have hstep : (system Unit).step both (.remove "m" [.delegated, .watch]) = some
      ⟨removeGtdThreadFromSections both.sections "m" [.delegated, .watch], [snapshotGtdThreadRemoval both.sections "m" [.delegated, .watch]]⟩ := rfl
  exact (counts_follow (.tail (.init both_init) (fun _ _ => by decide) hstep)).1

/-- Done in watch, the thread still waits in delegated, and the rollup counts nothing. -/
theorem counts_not_follow : ¬∀ s : State Unit, (system Unit).Reachable s → s.sections.Counted := fun h => by
  have hstep : (system Unit).step both (.remove "m" [.watch]) = some
      ⟨removeGtdThreadFromSections both.sections "m" [.watch], [snapshotGtdThreadRemoval both.sections "m" [.watch]]⟩ := rfl
  have hcounted := (h _ (.tail (.init both_init) trivial hstep)).waiting ⟨0, 0⟩ rfl
  exact absurd hcounted.1 (by decide)

end MailExpert.Gtd
