import MailExpert.Threading.Choices

/-!
# Threading a message as it arrives

`computeThreading` of `services/threading/threadId.js`, `rerootThreadChildren` of
`services/imapManager.js` and the part of `processMsg` that calls them. A message looks its ancestors
up among the rows stored before it, and when it is not its own root, the rows that waited for it under
its Message-ID move on to its key.
-/

namespace MailExpert.Threading

/-- `rows` is what the query answered. -/
def computeThreading (row : Row) (mode : Mode) (rows : List (String × String)) : ThreadKey :=
  match mode, truthy row.provider_thread_id with
  | .gmail, some thread => { threadId := some (GMAIL_KEY_PREFIX ++ thread), reason := some .gmailThrid }
  | _, _ => match row.messageId with
    | none => { threadId := none, reason := none }
    | some messageId => match row.candidates with
      | [] => { threadId := some messageId, reason := some .newRoot }
      | root :: rest =>
        if rows.length = 0 then { threadId := some root, reason := some .rfcProvisional }
        else
          let found := Keys.ofResolved rows
          if found.has root then { threadId := found.get root, reason := some .rfcRoot }
          else match (root :: rest).reverse.find? found.has with
            | some ancestor => { threadId := found.get ancestor, reason := some .rfcAncestor }
            | none => { threadId := some root, reason := some .rfcProvisional }

/-- The rows of the mailbox that have one of the Message-IDs and a thread key. -/
def selectAncestors (stored : List Row) (columns : Columns) (candidates : List String) :
    List (String × String) :=
  stored.filterMap fun row => match row.message_id, (columns row.id).threadId with
    | some messageId, some threadId =>
      if messageId ∈ candidates then some (messageId, threadId) else none
    | _, _ => none

def rerootThreadChildren (stored : List Row) (columns : Columns) (threadId messageId : String) :
    Columns := fun id =>
  if (columns id).threadId = some messageId ∧
      stored.any (fun row => row.id = id && row.message_id.any (· ≠ messageId)) then
    { threadId := some threadId, reason := some .rfcRoot }
  else columns id

def storeMessage (mode : Mode) (stored : List Row) (columns : Columns) (row : Row) (key : ThreadKey) :
    Columns :=
  let inserted : Columns := fun id => if id = row.id then key else columns id
  match truthy key.threadId, row.message_id with
  | some threadId, some messageId =>
    if threadId ≠ messageId ∧ mode ≠ .gmail then
      rerootThreadChildren (stored ++ [row]) inserted threadId messageId
    else inserted
  | _, _ => inserted

/-- The rows in the order in which they came, and their columns. -/
inductive Live (mode : Mode) (columns₀ : Columns) : List Row → Columns → Prop
  | nil : Live mode columns₀ [] columns₀
  | arrive : Live mode columns₀ stored columns → row.id ∉ stored.map (·.id) →
    rows.Perm (selectAncestors stored columns row.candidates) →
    Live mode columns₀ (stored ++ [row])
      (storeMessage mode stored columns row (computeThreading row mode rows))

variable {mode : Mode} {columns₀ columns : Columns} {stored rows : List Row} {row : Row}
  {answer : List (String × String)} {c threadId : String} {key : ThreadKey} {mailbox : Mailbox}
  {s₀ s s' : State}

/-- The two resolvers are one function of the answer. -/
theorem computeThreading_eq :
    computeThreading row mode answer = threadingForRow row mode (.ofResolved answer) := by
  unfold computeThreading threadingForRow
  cases row.messageId with
  | none => cases mode <;> cases truthy row.provider_thread_id <;> rfl
  | some messageId =>
    cases row.candidates with
    | nil => cases mode <;> cases truthy row.provider_thread_id <;> rfl
    | cons root rest =>
      cases answer with
      | nil =>
        have hnone : (Keys.ofResolved []).has = fun _ => false := rfl
        have hfind : rest.reverse.find? (fun _ => false) = none := by simp
        cases mode <;> cases truthy row.provider_thread_id <;> simp [hnone, hfind]
      | cons first answer => cases mode <;> cases truthy row.provider_thread_id <;> rfl

theorem mem_selectAncestors {candidates : List String} :
    (c, threadId) ∈ selectAncestors stored columns candidates ↔ ∃ row ∈ stored,
      row.message_id = some c ∧ (columns row.id).threadId = some threadId ∧ c ∈ candidates := by
  simp only [selectAncestors, List.mem_filterMap]
  constructor
  · rintro ⟨row, hrow, hselect⟩
    split at hselect
    · next hid hkey =>
      split at hselect
      · next hmem =>
        cases hselect
        exact ⟨row, hrow, hid, hkey, hmem⟩
      · cases hselect
    · cases hselect
  · rintro ⟨row, hrow, hid, hkey, hmem⟩
    refine ⟨row, hrow, ?_⟩
    simp [hid, hkey, hmem]

/-! ## Rows that nothing waits for -/

theorem Leads.root_mem {before : List Row} {root : Row} (h : Leads mode before row root) :
    root = row ∨ root ∈ before := by
  induction h with
  | own => exact .inl rfl
  | copy _ _ _ ih =>
    rcases ih with rfl | hmem
    · exact .inr (by simp)
    · exact .inr (List.mem_append_left _ hmem)

/-- A row of its own has its Message-ID or its first candidate for a key. -/
theorem mem_of_own (h : (row.own .rfc).threadId = some c) :
    row.messageId = some c ∨ c ∈ row.candidates := by
  unfold Row.own threadingForRow at h
  dsimp only at h
  split at h
  · cases h
  · next messageId hid =>
    split at h
    · cases h
      exact .inl hid
    · next root rest hcandidates =>
      rw [find?_has_nil] at h
      cases h
      exact .inr (hcandidates ▸ List.mem_cons_self ..)

/-- Where no row waits for the message, it is only inserted. -/
theorem storeMessage_eq (hfresh : row.id ∉ stored.map (·.id)) (hwaits : mode ≠ .gmail →
      ∀ messageId, row.message_id = some messageId → key.threadId.isSome = true →
        ∀ other ∈ stored, (columns other.id).threadId ≠ some messageId) :
    storeMessage mode stored columns row key = fun id => if id = row.id then key else columns id := by
  unfold storeMessage
  split
  · next threadId messageId hthread hid =>
    split
    · next hreroot =>
      have hsome : key.threadId.isSome = true :=
        Option.isSome_of_eq_some (Option.filter_eq_some_iff.mp hthread).1
      funext id
      refine if_neg fun hwaiting => ?_
      obtain ⟨hkey, hother⟩ := hwaiting
      dsimp only at hkey
      obtain ⟨other, hmem, hsame⟩ := List.any_eq_true.mp hother
      simp only [Bool.and_eq_true, decide_eq_true_eq, Option.any_eq_true] at hsame
      obtain ⟨rfl, messageId', hid', hne⟩ := hsame
      rcases List.mem_append.mp hmem with hmem | hmem
      · have hne : other.id ≠ row.id := fun heq => hfresh (heq ▸ List.mem_map_of_mem hmem)
        rw [if_neg hne] at hkey
        exact hwaits hreroot.2 messageId hid hsome other hmem hkey
      · rw [List.mem_singleton.mp hmem, hid] at hid'
        cases hid'
        simp at hne
    · rfl
  · rfl

/-- Every message names, besides itself, only messages that came before it or never came. -/
def NamesEarlier (stored : List Row) : Prop :=
  ∀ pre row post, stored = pre ++ row :: post → ∀ c ∈ row.candidates, present post c = false

theorem NamesEarlier.of_append_left (h : NamesEarlier (stored ++ rows)) : NamesEarlier stored := by
  intro pre row post hsplit c hc
  have hall := h pre row (post ++ rows) (by simp [hsplit]) c hc
  rw [present_append, Bool.or_eq_false_iff] at hall
  exact hall.1

/-- No stored row has a key that a later message brings. -/
theorem Derived.not_waits (h : Derived .rfc columns stored) (hcopies : NoCopies (stored ++ [row]))
    (hnames : NamesEarlier (stored ++ [row])) (hid : row.messageId = some c) :
    ∀ other ∈ stored, (columns other.id).threadId ≠ some c := by
  intro other hmem hkey
  obtain ⟨pre, post, rfl⟩ := List.append_of_mem hmem
  obtain ⟨root, hroot, hderives⟩ := h pre other post rfl
  rw [hderives, hroot.threadId] at hkey
  have hrootmem : root ∈ pre ++ other :: post := by
    rcases hroot.root_mem with rfl | hpre
    · exact hmem
    · exact List.mem_append_left _ hpre
  rcases mem_of_own hkey with hsame | hcandidate
  · exact (List.pairwise_append.mp hcopies).2.2 root hrootmem row (List.mem_singleton.mpr rfl) c
      hsame hid
  · obtain ⟨pre', post', hsplit⟩ := List.append_of_mem hrootmem
    have hlater := hnames pre' root (post' ++ [row]) (by rw [hsplit]; simp) c hcandidate
    rw [present_append, Bool.or_eq_false_iff, present_singleton] at hlater
    simp [hid] at hlater

/-- **Live threading** gives each message a key that it derives from those before it. -/
theorem Live.derived (h : Live mode columns₀ stored columns) (hcopies : NoCopies stored)
    (hnames : NamesEarlier stored) : Derived mode columns stored := by
  induction h with
  | nil =>
    intro pre row post hsplit
    simp at hsplit
  | @arrive stored columns row answer hlive hfresh hanswer ih =>
    have hderived := ih hcopies.of_append_left hnames.of_append_left
    have hresolves : Resolves mode row.candidates stored (.ofResolved answer) := by
      refine hderived.resolves fun c hc threadId => ?_
      rw [hanswer.mem_iff, mem_selectAncestors]
      constructor
      · rintro ⟨other, hother, hid, hkey, -⟩
        exact ⟨other, hother, messageId_of_message_id hid (candidates_ne_empty hc), hkey⟩
      · rintro ⟨other, hother, hid, hkey⟩
        exact ⟨other, hother, message_id_of_messageId hid, hkey, hc⟩
    have hkey := hresolves.derives fun c hc => hc
    rw [computeThreading_eq, storeMessage_eq hfresh]
    · intro pre other post hsplit
      rcases split_append hsplit with ⟨post', hstored⟩ | ⟨pre', rfl, hlast⟩
      · have hne : other.id ≠ row.id := fun heq =>
          hfresh (heq ▸ List.mem_map_of_mem (hstored ▸ by simp))
        dsimp only
        rw [if_neg hne]
        exact hderived pre other post' hstored
      · cases pre' with
        | nil =>
          obtain ⟨rfl, -⟩ := List.cons.inj hlast
          dsimp only
          rw [if_pos rfl, List.append_nil]
          exact hkey
        | cons first pre' => simp at hlast
    · intro hmode messageId hid hsome other hother
      cases mode with
      | gmail => exact absurd rfl hmode
      | rfc =>
        have hthere : row.messageId.isSome = true := by
          by_contra hnone
          simp [threadingForRow, Option.not_isSome_iff_eq_none.mp hnone] at hsome
        obtain ⟨messageId', hid'⟩ := Option.isSome_iff_exists.mp hthere
        cases (message_id_of_messageId hid').symm.trans hid
        exact hderived.not_waits hcopies hnames hid' other hother

/-! ## Running a recompute again -/

/-- The mailbox holds what came, one message after another by date and id, under one mode. -/
def StoredLive (mailbox : Mailbox) (mode : Mode) (columns : Columns) : Prop :=
  ∃ stored columns₀, Live mode columns₀ stored columns ∧ mailbox.rows.Perm stored ∧
    (∀ row ∈ stored, row.is_deleted = false ∧ row.date.isSome = true) ∧
    (stored.Pairwise fun a b => a.position < b.position) ∧ NoCopies stored ∧ NamesEarlier stored

/-- A recompute right after a finished one changes nothing. -/
def SecondChangesNothing (mailbox : Mailbox) (mode : Mode) (s₀ : State) : Prop :=
  ∀ s s', Recomputes mailbox mode s₀ s → Recomputes mailbox mode s s' → s'.columns = s.columns

theorem walk_eq (hrows : mailbox.rows.Perm stored)
    (hlive : ∀ row ∈ stored, row.is_deleted = false ∧ row.date.isSome = true)
    (hsorted : stored.Pairwise fun a b => a.position < b.position) :
    mailbox.walk = stored ∧ mailbox.selectUndated = [] := by
  constructor
  · refine List.Perm.eq_of_pairwise (fun a b _ _ hab hba => absurd hab (lt_asymm hba))
      (walk_sorted mailbox) hsorted ?_
    have hall : stored.filter (fun row => !row.is_deleted && row.date.isSome) = stored :=
      List.filter_eq_self.mpr fun row hrow => by simp [hlive row hrow]
    have hfilter := hrows.filter fun row => !row.is_deleted && row.date.isSome
    rw [hall] at hfilter
    exact (List.perm_insertionSort _ _).trans hfilter
  · refine List.eq_nil_iff_forall_not_mem.mpr fun row hrow => ?_
    obtain ⟨hmem, -, hdate⟩ := mem_selectUndated.mp hrow
    have hsome := (hlive row (hrows.mem_iff.mp hmem)).2
    rw [hdate] at hsome
    cases hsome

/-- A step of a pass writes live rows only. -/
theorem step_columns {l : Label} {id : Nat} (hstep : step mailbox mode s l = some s')
    (hwalk : id ∉ mailbox.walk.map (·.id)) (hundated : id ∉ mailbox.selectUndated.map (·.id)) :
    s'.columns id = s.columns id := by
  cases l with
  | start =>
    simp only [step] at hstep
    split at hstep
    · cases hstep
    · split at hstep <;> cases hstep <;> rfl
  | batch =>
    simp only [step, Option.bind_eq_bind, Option.bind_eq_some_iff] at hstep
    obtain ⟨pass, -, last, -, hrekey⟩ := hstep
    obtain ⟨-, hcolumns, -⟩ := rekey_some hrekey
    rw [hcolumns]
    refine rekeyBatch_of_not_mem fun hmem => hwalk ?_
    have hsub : (mailbox.selectBatch pass.cursor pass.batchSize).Sublist mailbox.walk :=
      (List.take_sublist _ _).trans List.filter_sublist
    exact (hsub.map _).subset hmem
  | saveCursor =>
    simp only [step, Option.bind_eq_bind, Option.bind_eq_some_iff] at hstep
    obtain ⟨pass, -, hsave⟩ := hstep
    split at hsave
    · cases hsave
      rfl
    · cases hsave
  | tail =>
    simp only [step, Option.bind_eq_bind, Option.bind_eq_some_iff] at hstep
    obtain ⟨pass, -, htail⟩ := hstep
    split at htail
    · cases htail
    · obtain ⟨-, hcolumns, -⟩ := rekey_some htail
      rw [hcolumns]
      exact rekeyBatch_of_not_mem hundated
  | saveTail =>
    simp only [step, Option.bind_eq_bind, Option.bind_eq_some_iff] at hstep
    obtain ⟨pass, -, hsave⟩ := hstep
    cases hsave
    rfl
  | finish =>
    simp only [step, Option.bind_eq_bind, Option.bind_eq_some_iff] at hstep
    obtain ⟨pass, -, hfinish⟩ := hstep
    cases hfinish
    rfl
  | stop =>
    cases hstep
    rfl

theorem Recomputes.columns_eq (h : Recomputes mailbox mode s₀ s)
    (hwalk : ∀ row ∈ mailbox.walk, s.columns row.id = s₀.columns row.id)
    (hundated : ∀ row ∈ mailbox.selectUndated, s.columns row.id = s₀.columns row.id) :
    s.columns = s₀.columns := by
  funext id
  by_cases hid : id ∈ mailbox.walk.map (·.id)
  · obtain ⟨row, hrow, rfl⟩ := List.mem_map.mp hid
    exact hwalk row hrow
  by_cases hid' : id ∈ mailbox.selectUndated.map (·.id)
  · obtain ⟨row, hrow, rfl⟩ := List.mem_map.mp hid'
    exact hundated row hrow
  obtain ⟨n, s₁, hstart, hrun, -⟩ := h
  have hstable : (system mailbox mode).Stable TransitionSystem.anyStep fun t =>
      t.columns id = s₀.columns id :=
    fun t l t' ht _ hstep => (step_columns hstep hid hid').trans ht
  exact hstable.run (step_columns hstart hid hid') hrun

/-- After a finished recompute another one begins anew. -/
theorem Recomputes.init (h : Recomputes mailbox mode s₀ s) : (system mailbox mode).init s := by
  obtain ⟨-, -, -, -, hidle, hfinished⟩ := h
  refine ⟨hidle, ?_⟩
  obtain ⟨recompute, hrecompute, hfinished⟩ := (Option.any_eq_true _ _).mp hfinished
  rw [hrecompute]
  simp [Recompute.resuming, hfinished]

/-- Over what came live a recompute changes nothing. -/
theorem StoredLive.recomputes (h : StoredLive mailbox mode s₀.columns)
    (hinit : (system mailbox mode).init s₀) (hs : Recomputes mailbox mode s₀ s) :
    s.columns = s₀.columns := by
  obtain ⟨stored, columns₀, hlive, hrows, hall, hsorted, hcopies, hnames⟩ := h
  obtain ⟨hwalk, hundated⟩ := walk_eq hrows hall hsorted
  have hunambiguous : Unambiguous mailbox mode :=
    .of_noCopies (by rwa [hwalk, hundated, List.append_nil])
  refine hs.columns_eq (fun row hrow => ?_) (fun row hrow => by simp [hundated] at hrow)
  obtain ⟨pre, post, hsplit⟩ := List.append_of_mem hrow
  exact hunambiguous.derives hsplit ((hs.derived hinit).1 pre row post hsplit)
    (hlive.derived hcopies hnames pre row post (hwalk ▸ hsplit))

theorem Unambiguous.secondChangesNothing (h : Unambiguous mailbox mode)
    (hinit : (system mailbox mode).init s₀) : SecondChangesNothing mailbox mode s₀ := by
  intro s s' hs hs'
  obtain ⟨hderived, hundated⟩ := hs.derived hinit
  obtain ⟨hderived', hundated'⟩ := hs'.derived hs.init
  refine hs'.columns_eq (fun row hrow => ?_) (fun row hrow => ?_)
  · obtain ⟨pre, post, hsplit⟩ := List.append_of_mem hrow
    exact h.derives hsplit (hderived' pre row post hsplit) (hderived pre row post hsplit)
  · obtain ⟨pre, post, hsplit⟩ := List.append_of_mem hrow
    exact h.derivesUndated hsplit (hundated' pre row post hsplit) (hundated pre row post hsplit)

/-- A second recompute could leave any key that the first one could. -/
theorem SecondChangesNothing.unambiguous (h : SecondChangesNothing mailbox mode s₀)
    (hinit : (system mailbox mode).init s₀) : Unambiguous mailbox mode := by
  constructor
  · intro pre row post root root' hwalk hroot hroot'
    obtain ⟨s, hs, hkey⟩ := hroot.exists_recomputes hinit hwalk
    obtain ⟨s', hs', hkey'⟩ := hroot'.exists_recomputes hs.init hwalk
    rw [← hkey, ← hkey', h s s' hs hs']
  · intro pre row post root root' hundated hroot hroot'
    obtain ⟨s, hs, hkey⟩ := hroot.exists_recomputes hinit hundated
    obtain ⟨s', hs', hkey'⟩ := hroot'.exists_recomputes hs.init hundated
    rw [← hkey, ← hkey', h s s' hs hs']

/-- **A recompute agrees with live threading**, and with the recompute before it exactly when no live
row leads to two keys. -/
theorem changesNothing_iff (hinit : (system mailbox mode).init s₀) :
    (StoredLive mailbox mode s₀.columns → ∀ s, Recomputes mailbox mode s₀ s → s.columns = s₀.columns) ∧
      (SecondChangesNothing mailbox mode s₀ ↔ Unambiguous mailbox mode) :=
  ⟨fun h _ hs => h.recomputes hinit hs,
    fun h => h.unambiguous hinit, fun h => h.secondChangesNothing hinit⟩

def letter : Row := { id := 1, date := some 1, message_id := some "<m>" }

def reply : Row := { id := 2, date := some 2, message_id := some "<y>", in_reply_to := some "<m>" }

def letterAndReply : Mailbox where
  rows := [reply, letter]
  distinct := by decide

def received : State where
  columns := storeMessage .rfc [letter]
    (storeMessage .rfc [] unthreaded.columns letter (computeThreading letter .rfc []))
    reply (computeThreading reply .rfc [("<m>", "<m>")])
  recompute := none
  pass := none

theorem storedLive_received : StoredLive letterAndReply .rfc received.columns := by
  have hletter : Live .rfc unthreaded.columns ([] ++ [letter]) (storeMessage .rfc []
      unthreaded.columns letter (computeThreading letter .rfc [])) :=
    .arrive .nil (by decide) (by decide)
  have hanswer : [("<m>", "<m>")].Perm (selectAncestors ([] ++ [letter]) (storeMessage .rfc []
      unthreaded.columns letter (computeThreading letter .rfc [])) reply.candidates) := by decide
  have hlive : Live .rfc unthreaded.columns [letter, reply] received.columns :=
    .arrive hletter (show reply.id ∉ _ by decide) hanswer
  have hnames : NamesEarlier [letter, reply] := by
    intro pre row post hsplit c hc
    rcases pre with _ | ⟨first, _ | ⟨second, pre⟩⟩
    · obtain ⟨rfl, rfl⟩ := List.cons.inj hsplit
      simp [show letter.candidates = [] by decide] at hc
    · obtain ⟨-, hlast⟩ := List.cons.inj hsplit
      obtain ⟨-, rfl⟩ := List.cons.inj hlast
      rfl
    · simp at hsplit
  refine ⟨_, _, hlive, .swap .., ?_, ?_, ?_, hnames⟩
  · simp [letter, reply]
  · decide
  · simp [NoCopies, letter, reply, Row.messageId, truthy]

theorem changesNothing_received : StoredLive letterAndReply .rfc received.columns ∧
    ∀ s, Recomputes letterAndReply .rfc received s → s.columns = received.columns :=
  ⟨storedLive_received, (changesNothing_iff ⟨rfl, rfl⟩).1 storedLive_received⟩

/-- The database answers for the two copies in one order, and after the first pass wrote their rows in
the other. -/
theorem not_secondChangesNothing : ¬ SecondChangesNothing twoCopies .rfc unthreaded := by
  intro h
  let pass (answer : List (String × String)) : List Label :=
    [.batch [], .saveCursor, .batch [], .saveCursor, .batch answer, .saveCursor, .tail [], .finish]
  let begun : State := {
    columns := unthreaded.columns, recompute := some { target_mode := .rfc, total := 3 }
    pass := some { batchSize := 1, cursor := none, processed := 0, changed := 0, total := 3 } }
  have hfirst : ((system twoCopies .rfc).exec uninterrupted begun
      (pass [("<m>", "<m>"), ("<m>", "<r>")])).any (fun s => (s.pass.isNone &&
        s.recompute.any (·.finished) && (s.columns 3).threadId = some "<r>") &&
        (step twoCopies .rfc s (.start 1)).any fun s₁ => ((system twoCopies .rfc).exec uninterrupted s₁
          (pass [("<m>", "<r>"), ("<m>", "<m>")])).any fun s' => s'.pass.isNone &&
            s'.recompute.any (·.finished) && (s'.columns 3).threadId = some "<m>") = true := by decide
  obtain ⟨s, hrun, hp⟩ := TransitionSystem.run_of_exec_any hfirst
  obtain ⟨hp, hsecond⟩ := Bool.and_eq_true_iff.mp hp
  obtain ⟨s₁, hstart, hsecond⟩ := (Option.any_eq_true _ _).mp hsecond
  obtain ⟨s', hrun', hp'⟩ := TransitionSystem.run_of_exec_any hsecond
  simp only [Bool.and_eq_true, Option.isNone_iff_eq_none, decide_eq_true_eq] at hp hp'
  obtain ⟨hfinished, hkey⟩ := hp
  obtain ⟨hfinished', hkey'⟩ := hp'
  have hsame := h s s' ⟨1, begun, rfl, hrun.anyStep, hfinished⟩ ⟨1, s₁, hstart, hrun'.anyStep, hfinished'⟩
  rw [hsame, hkey] at hkey'
  simp at hkey'

end MailExpert.Threading
