import MailExpert.Threading.Live

/-!
# Reply trees that are stored whole

Live threading gives every message of a reply tree the key of its root in whatever order they come,
since a message that comes late takes with it the rows that waited for it. A recompute goes over the
rows once, by date, and moves none on: a reply dated before all the messages it names keeps the first
of these as its key.
-/

namespace MailExpert.Threading

/-- A message of a reply tree that is stored whole, with the Message-IDs of its root and of its
ancestors, oldest first. Its candidates are the newest of these, its parent among them. -/
inductive InTree (mailbox : Mailbox) : Row → (root : String) → (path : List String) → Prop
  | root : row ∈ mailbox.rows → row.is_deleted = false → row.messageId = some messageId →
    row.candidates = [] → InTree mailbox row messageId []
  | reply : InTree mailbox parent root path → parent.messageId = some parentId →
    row ∈ mailbox.rows → row.is_deleted = false → row.messageId.isSome = true →
    row.candidates ≠ [] → row.candidates <:+ path ++ [parentId] →
    InTree mailbox row root (path ++ [parentId])

def Mailbox.order (mailbox : Mailbox) : List Row := mailbox.walk ++ mailbox.selectUndated

/-- Every recompute leaves the messages of a tree with the key of its root. -/
def GroupsTrees (mailbox : Mailbox) (s₀ : State) : Prop :=
  ∀ s row root path, Recomputes mailbox .rfc s₀ s → InTree mailbox row root path →
    (s.columns row.id).threadId = some root

/-- A reply that comes before all the messages it names, names the root first. -/
def EarlyRepliesNameRoot (mailbox : Mailbox) : Prop :=
  ∀ row root path pre post, InTree mailbox row root path → path ≠ [] →
    mailbox.order = pre ++ row :: post → (∀ c ∈ row.candidates, present pre c = false) →
    row.candidates.head? = some root

variable {mailbox : Mailbox} {row parent : Row} {root root' c : String} {path path' : List String}
  {columns columns₀ : Columns} {stored : List Row} {s₀ : State}

theorem InTree.live (h : InTree mailbox row root path) :
    row ∈ mailbox.rows ∧ row.is_deleted = false ∧ row.messageId.isSome = true := by
  cases h with
  | root hrow hlive hid => exact ⟨hrow, hlive, by rw [hid]; rfl⟩
  | reply _ _ hrow hlive hid => exact ⟨hrow, hlive, hid⟩

theorem mem_order : row ∈ mailbox.order ↔ row ∈ mailbox.rows ∧ row.is_deleted = false := by
  rw [Mailbox.order, List.mem_append, mem_walk, mem_selectUndated]
  cases row.date <;> simp

theorem InTree.mem_order (h : InTree mailbox row root path) : row ∈ mailbox.order :=
  Threading.mem_order.mpr ⟨h.live.1, h.live.2.1⟩

theorem NoCopies.eq {rows : List Row} (h : NoCopies rows) (hrow : row ∈ rows) (hparent : parent ∈ rows)
    (hid : row.messageId = some c) (hid' : parent.messageId = some c) : row = parent := by
  obtain ⟨pre, post, hsplit⟩ := List.append_of_mem hrow
  obtain ⟨pre', post', hsplit'⟩ := List.append_of_mem hparent
  exact (h.split hsplit hsplit' hid hid').2

/-- The ancestors of a message are messages of its tree. -/
theorem InTree.of_mem_path (h : InTree mailbox row root path) (hc : c ∈ path) :
    ∃ ancestor path', InTree mailbox ancestor root path' ∧ ancestor.messageId = some c ∧
      path' ++ [c] <+: path := by
  induction h with
  | root => simp at hc
  | @reply parent root path parentId row hparent hid _ _ _ _ _ ih =>
    rcases List.mem_append.mp hc with hc | hc
    · obtain ⟨ancestor, path', hancestor, hid', hprefix⟩ := ih hc
      exact ⟨ancestor, path', hancestor, hid', hprefix.trans (List.prefix_append _ _)⟩
    · obtain rfl := List.mem_singleton.mp hc
      exact ⟨parent, path, hparent, hid, List.prefix_refl _⟩

theorem InTree.candidate_mem (h : InTree mailbox row root path) (hc : c ∈ row.candidates) :
    c ∈ path := by
  cases h with
  | root _ _ _ hnone => simp [hnone] at hc
  | reply _ _ _ _ _ _ hsuffix => exact hsuffix.subset hc

/-- A message has one place in one tree. -/
theorem InTree.unique (hcopies : NoCopies mailbox.order) (h : InTree mailbox row root path)
    (h' : InTree mailbox row root' path') : root = root' ∧ path = path' := by
  induction h generalizing root' path' with
  | root _ _ hid hnone =>
    cases h' with
    | root _ _ hid' => exact ⟨Option.some.inj (hid.symm.trans hid'), rfl⟩
    | reply _ _ _ _ _ hsome => exact absurd hnone hsome
  | @reply parent root path parentId row hparent hid _ _ _ hsome hsuffix ih =>
    cases h' with
    | root _ _ _ hnone => exact absurd hnone hsome
    | @reply parent' _ path' parentId' _ hparent' hid' _ _ _ _ hsuffix' =>
      have hlast : row.candidates.getLast hsome = parentId := by
        rw [hsuffix.getLast hsome]
        simp
      have hlast' : row.candidates.getLast hsome = parentId' := by
        rw [hsuffix'.getLast hsome]
        simp
      obtain rfl : parentId = parentId' := hlast.symm.trans hlast'
      obtain rfl := hcopies.eq hparent.mem_order hparent'.mem_order hid hid'
      obtain ⟨rfl, rfl⟩ := ih hparent'
      exact ⟨rfl, rfl⟩

/-- No message is its own ancestor. -/
theorem InTree.not_mem_path (hcopies : NoCopies mailbox.order) (h : InTree mailbox row root path)
    (hid : row.messageId = some c) : c ∉ path := by
  intro hc
  obtain ⟨ancestor, path', hancestor, hid', hprefix⟩ := h.of_mem_path hc
  obtain rfl := hcopies.eq h.mem_order hancestor.mem_order hid hid'
  obtain ⟨-, rfl⟩ := h.unique hcopies hancestor
  have hlength := hprefix.length_le
  rw [List.length_append, List.length_singleton] at hlength
  omega

/-! ## The recompute -/

theorem Row.under_eq_none {has : String → Bool} {mode : Mode}
    (h : ∀ c ∈ row.candidates, has c = false) : row.under mode has = none := by
  cases hunder : row.under mode has with
  | none => rfl
  | some found =>
    obtain ⟨hc, hhas⟩ := Row.under_some hunder
    rw [h _ hc] at hhas
    cases hhas

theorem Row.not_has_of_under {has : String → Bool} (hid : row.messageId.isSome = true)
    (h : row.under .rfc has = none) (hc : c ∈ row.candidates) : has c = false := by
  have hmessage : row.messageId.isNone = false := by
    rw [← Option.not_isSome, hid]
    rfl
  unfold Row.under at h
  simp only [hmessage, Bool.false_eq_true, if_false] at h
  split at h
  · next hnone => simp [hnone] at hc
  · next first rest hcandidates =>
    split at h
    · cases h
    · rw [Option.map_eq_none_iff, List.find?_eq_none] at h
      rw [hcandidates] at hc
      simpa using h c (List.mem_reverse.mpr hc)

theorem Row.own_rfc {messageId : String} (hid : row.messageId = some messageId) :
    (row.own .rfc).threadId = some (row.candidates.head?.getD messageId) := by
  unfold Row.own threadingForRow
  simp only [hid]
  cases row.candidates with
  | nil => rfl
  | cons first rest =>
    simp only [find?_has_nil]
    rfl

/-- A message that is under no other has the root's key, if it names the root first. -/
theorem InTree.own_root {has : String → Bool} (h : InTree mailbox row root path)
    (hfirst : path ≠ [] → (∀ c ∈ row.candidates, has c = false) → row.candidates.head? = some root)
    (hunder : row.under .rfc has = none) : (row.own .rfc).threadId = some root := by
  obtain ⟨messageId, hid⟩ := Option.isSome_iff_exists.mp h.live.2.2
  rw [Row.own_rfc hid]
  cases h with
  | root _ _ hroot hnone =>
    rw [hnone]
    exact hid.symm.trans hroot
  | reply =>
    rw [hfirst (by simp) fun c hc => Row.not_has_of_under (by rw [hid]; rfl) hunder hc]
    rfl

/-- A row that has the Message-ID of an ancestor is the ancestor. -/
theorem InTree.of_messageId (hcopies : NoCopies mailbox.order) (h : InTree mailbox row root path)
    (hc : c ∈ path) (hparent : parent ∈ mailbox.order) (hid : parent.messageId = some c) :
    ∃ path', InTree mailbox parent root path' ∧ path' ++ [c] <+: path := by
  obtain ⟨ancestor, path', hancestor, hid', hprefix⟩ := h.of_mem_path hc
  obtain rfl := hcopies.eq hparent hancestor.mem_order hid hid'
  exact ⟨path', hancestor, hprefix⟩

/-- What a message of a tree is under is a message of the tree. -/
theorem InTree.of_under {has : String → Bool} {reason : Reason} (hcopies : NoCopies mailbox.order)
    (h : InTree mailbox row root path) (hunder : row.under .rfc has = some (c, reason))
    (hparent : parent ∈ mailbox.order) (hid : parent.messageId = some c) :
    ∃ path', InTree mailbox parent root path' ∧ path' ++ [c] <+: path :=
  h.of_messageId hcopies (h.candidate_mem (Row.under_some hunder).1) hparent hid

theorem Leads.root_key {pre post : List Row} {chainRoot : Row} (hcopies : NoCopies mailbox.order)
    (hfirst : EarlyRepliesNameRoot mailbox) (h : Leads .rfc pre row chainRoot)
    (hwalk : mailbox.walk = pre ++ row :: post) (htree : InTree mailbox row root path) :
    (chainRoot.own .rfc).threadId = some root := by
  have hmem {r : Row} (hr : r ∈ mailbox.walk) : r ∈ mailbox.order := List.mem_append_left _ hr
  induction h generalizing post path with
  | @own pre row hunder =>
    have horder : mailbox.order = pre ++ row :: (post ++ mailbox.selectUndated) := by
      rw [Mailbox.order, hwalk, List.append_assoc, List.cons_append]
    exact htree.own_root (fun hpath hnone => hfirst row root path pre _ htree hpath horder hnone) hunder
  | @copy c reason pre parent chainRoot post' row hunder hid _ ih =>
    have hparents : mailbox.walk = pre ++ parent :: (post' ++ row :: post) := by simpa using hwalk
    obtain ⟨path', hparent, -⟩ := htree.of_under hcopies hunder (hmem (hparents ▸ by simp)) hid
    exact ih hparents hparent

theorem LeadsUndated.root_key {pre post : List Row} {chainRoot : Row}
    (hcopies : NoCopies mailbox.order) (hfirst : EarlyRepliesNameRoot mailbox)
    (h : LeadsUndated .rfc mailbox.walk pre row chainRoot)
    (hundated : mailbox.selectUndated = pre ++ row :: post) (htree : InTree mailbox row root path) :
    (chainRoot.own .rfc).threadId = some root := by
  induction h generalizing post path with
  | @own pre row hunder =>
    have horder : mailbox.order = (mailbox.walk ++ pre) ++ row :: post := by
      rw [Mailbox.order, hundated, List.append_assoc]
    exact htree.own_root (fun hpath hnone => hfirst row root path _ post htree hpath horder hnone) hunder
  | @dated c reason pre dated parent chainPost chainRoot row hunder _ hwalk hid hroot =>
    have hmem : parent ∈ mailbox.order := List.mem_append_left _ (hwalk ▸ by simp)
    obtain ⟨path', hparent, -⟩ := htree.of_under hcopies hunder hmem hid
    exact hroot.root_key hcopies hfirst hwalk hparent
  | @undated c reason post' pre parent chainRoot row hunder _ hid _ ih =>
    have hparents : mailbox.selectUndated = pre ++ parent :: (post' ++ row :: post) := by
      simpa using hundated
    have hmem : parent ∈ mailbox.order := List.mem_append_right _ (hparents ▸ by simp)
    obtain ⟨path', hparent, -⟩ := htree.of_under hcopies hunder hmem hid
    exact ih hparents hparent

theorem EarlyRepliesNameRoot.groupsTrees (hfirst : EarlyRepliesNameRoot mailbox)
    (hcopies : NoCopies mailbox.order) (hinit : (system mailbox .rfc).init s₀) :
    GroupsTrees mailbox s₀ := by
  intro s row root path hs htree
  obtain ⟨hderived, hundated⟩ := hs.derived hinit
  rcases List.mem_append.mp htree.mem_order with hrow | hrow
  · obtain ⟨pre, post, hsplit⟩ := List.append_of_mem hrow
    obtain ⟨chainRoot, hroot, hkey⟩ := hderived pre row post hsplit
    rw [hkey, hroot.threadId]
    exact hroot.root_key hcopies hfirst hsplit htree
  · obtain ⟨pre, post, hsplit⟩ := List.append_of_mem hrow
    obtain ⟨chainRoot, hroot, hkey⟩ := hundated pre row post hsplit
    rw [hkey, hroot.threadId]
    exact hroot.root_key hcopies hfirst hsplit htree

theorem GroupsTrees.earlyRepliesNameRoot (h : GroupsTrees mailbox s₀)
    (hinit : (system mailbox .rfc).init s₀) : EarlyRepliesNameRoot mailbox := by
  intro row root path pre post htree hpath horder hnone
  obtain ⟨s, n, -, hpass⟩ := exists_singlePass hinit
  obtain ⟨hderived, hundated⟩ := hpass.recomputes.derived hinit
  have hkey := h s row root path hpass.recomputes htree
  obtain ⟨messageId, hid⟩ := Option.isSome_iff_exists.mp htree.live.2.2
  have hown : s.columns row.id = row.own .rfc := by
    rcases split_append horder with ⟨post', hwalk⟩ | ⟨pre', rfl, hsplit⟩
    · obtain ⟨chainRoot, -, hkeyIn⟩ := hderived pre row post' hwalk
      rw [hkeyIn, Row.keyIn_own (Row.under_eq_none hnone)]
    · obtain ⟨chainRoot, -, hkeyIn⟩ := hundated pre' row post hsplit
      rw [hkeyIn, Row.keyIn_own (Row.under_eq_none hnone)]
  rw [hown, Row.own_rfc hid] at hkey
  cases htree with
  | root => exact absurd rfl hpath
  | reply _ _ _ _ _ hsome =>
    cases hcandidates : row.candidates with
    | nil => exact absurd hcandidates hsome
    | cons first rest =>
      rw [hcandidates] at hkey
      exact hkey

/-! ## Live threading -/

/-- A message of a tree has the key of its root, or of an ancestor that has not come yet. -/
def Converging (mailbox : Mailbox) (stored : List Row) (columns : Columns) : Prop :=
  ∀ row ∈ stored, ∀ root path, InTree mailbox row root path → ∃ k,
    (columns row.id).threadId = some k ∧ (k = root ∨ k ∈ path ∧ present stored k = false)

theorem InTree.exists_root (h : InTree mailbox row root path) :
    ∃ top, InTree mailbox top root [] ∧ top.messageId = some root := by
  induction h with
  | @root row messageId hrow hlive hid hnone => exact ⟨row, .root hrow hlive hid hnone, hid⟩
  | reply _ _ _ _ _ _ _ ih => exact ih

theorem messageId_ne_empty (h : row.messageId = some c) : c ≠ "" := by
  simpa using (Option.filter_eq_some_iff.mp h).2

/-- The key a message of a tree gets when it comes. -/
theorem Converging.arrive {answer : List (String × String)} (h : Converging mailbox stored columns)
    (hcopies : NoCopies mailbox.order) (hstored : ∀ row ∈ stored, row ∈ mailbox.order)
    (hanswer : answer.Perm (selectAncestors stored columns row.candidates))
    (htree : InTree mailbox row root path) :
    ∃ k, (computeThreading row .rfc answer).threadId = some k ∧
      (k = root ∨ k ∈ path ∧ present stored k = false) := by
  have hhas {c : String} (hc : c ∈ row.candidates) (hthere : present stored c = true) :
      (Keys.ofResolved answer).has c = true := by
    obtain ⟨other, hother, hid⟩ := List.any_eq_true.mp hthere
    have hid : other.messageId = some c := of_decide_eq_true hid
    obtain ⟨path', hparent, -⟩ :=
      htree.of_messageId hcopies (htree.candidate_mem hc) (hstored other hother) hid
    obtain ⟨k, hkey, -⟩ := h other hother root path' hparent
    exact Keys.has_ofResolved.mpr ⟨k, hanswer.mem_iff.mpr
      (mem_selectAncestors.mpr ⟨other, hother, message_id_of_messageId hid, hkey, hc⟩)⟩
  rw [computeThreading_eq, threadingForRow_eq]
  cases hunder : row.under .rfc (Keys.ofResolved answer).has with
  | some found =>
    obtain ⟨c, reason⟩ := found
    obtain ⟨hc, hthere⟩ := Row.under_some hunder
    obtain ⟨threadId, hmem, hget⟩ := Keys.get_ofResolved hthere
    obtain ⟨other, hother, hid, hkey, -⟩ := mem_selectAncestors.mp (hanswer.mem_iff.mp hmem)
    obtain ⟨path', hparent, hprefix⟩ := htree.of_under hcopies hunder (hstored other hother)
      (messageId_of_message_id hid (candidates_ne_empty hc))
    obtain ⟨k, hkey', hk⟩ := h other hother root path' hparent
    cases hkey.symm.trans hkey'
    refine ⟨threadId, hget, hk.imp_right fun hk => ⟨?_, hk.2⟩⟩
    exact hprefix.subset (List.mem_append_left _ hk.1)
  | none =>
    obtain ⟨messageId, hid⟩ := Option.isSome_iff_exists.mp htree.live.2.2
    refine ⟨_, Row.own_rfc hid, ?_⟩
    cases hcandidates : row.candidates with
    | nil =>
      cases htree with
      | root _ _ hroot => exact .inl (Option.some.inj (hid.symm.trans hroot))
      | reply _ _ _ _ _ hsome => exact absurd hcandidates hsome
    | cons first rest =>
      have hfirst : first ∈ row.candidates := hcandidates ▸ List.mem_cons_self ..
      refine .inr ⟨htree.candidate_mem hfirst, ?_⟩
      rw [← Bool.not_eq_true]
      intro hthere
      have hnone := Row.not_has_of_under htree.live.2.2 hunder hfirst
      rw [hhas hfirst hthere] at hnone
      cases hnone

/-- A row that does not wait for the message keeps its key, and so does one that has it already. -/
theorem storeMessage_keep {mode : Mode} {key : ThreadKey} {id : Nat}
    (h : ∀ messageId, row.message_id = some messageId → key.threadId ≠ some messageId →
      (if id = row.id then key else columns id).threadId ≠ some messageId) :
    storeMessage mode stored columns row key id = if id = row.id then key else columns id := by
  unfold storeMessage
  cases hthread : truthy key.threadId with
  | none => rfl
  | some threadId =>
    have hkey : key.threadId = some threadId := (Option.filter_eq_some_iff.mp hthread).1
    cases hid : row.message_id with
    | none => rfl
    | some messageId =>
      dsimp only
      by_cases hreroot : threadId ≠ messageId ∧ mode ≠ .gmail
      · have hne : key.threadId ≠ some messageId := by
          rw [hkey]
          exact fun hsame => hreroot.1 (Option.some.inj hsame)
        rw [if_pos hreroot]
        exact if_neg fun hwaiting => h messageId hid hne hwaiting.1
      · rw [if_neg hreroot]

/-- A row that waits for the message takes its key. -/
theorem storeMessage_move {key : ThreadKey} {other : Row} {messageId threadId : String}
    (hid : row.message_id = some messageId) (hkey : truthy key.threadId = some threadId)
    (hne : threadId ≠ messageId) (hother : other ∈ stored) (hfresh : other.id ≠ row.id)
    (hwaits : (columns other.id).threadId = some messageId)
    (hothers : other.message_id.any (· ≠ messageId) = true) :
    (storeMessage .rfc stored columns row key other.id).threadId = some threadId := by
  unfold storeMessage
  simp only [hkey, hid]
  rw [if_pos ⟨hne, by simp⟩, rerootThreadChildren, if_pos]
  rw [if_neg hfresh]
  refine ⟨hwaits, List.any_eq_true.mpr ⟨other, List.mem_append_left _ hother, ?_⟩⟩
  rw [hothers]
  simp

theorem present_snoc (rows : List Row) (row : Row) (c : String) :
    present (rows ++ [row]) c = false ↔ present rows c = false ∧ row.messageId ≠ some c := by
  rw [present_append, present_singleton, Bool.or_eq_false_iff, decide_eq_false_iff_not]

theorem InTree.root_ne_empty (h : InTree mailbox row root path) : root ≠ "" := by
  obtain ⟨top, -, hid⟩ := h.exists_root
  exact messageId_ne_empty hid

theorem InTree.ne_empty_of_mem (h : InTree mailbox row root path) (hc : c ∈ path) : c ≠ "" := by
  obtain ⟨ancestor, -, -, hid, -⟩ := h.of_mem_path hc
  exact messageId_ne_empty hid

/-- A message that comes takes the rows that waited for it towards the root. -/
theorem Converging.store {key : ThreadKey} (h : Converging mailbox stored columns)
    (hcopies : NoCopies mailbox.order) (hrow : row ∈ mailbox.order) (hfresh : row.id ∉ stored.map (·.id))
    (hkey : ∀ root path, InTree mailbox row root path → ∃ k, key.threadId = some k ∧
      (k = root ∨ k ∈ path ∧ present stored k = false)) :
    Converging mailbox (stored ++ [row]) (storeMessage .rfc stored columns row key) := by
  intro other hother root path htree
  have hinserted : ∃ k, (if other.id = row.id then key else columns other.id).threadId = some k ∧
      (k = root ∨ k ∈ path ∧ present stored k = false) := by
    rcases List.mem_append.mp hother with hother | hother
    · have hne : other.id ≠ row.id := fun heq => hfresh (heq ▸ List.mem_map_of_mem hother)
      rw [if_neg hne]
      exact h other hother root path htree
    · obtain rfl := List.mem_singleton.mp hother
      rw [if_pos rfl]
      exact hkey root path htree
  obtain ⟨k, hk, hwhere⟩ := hinserted
  have hempty : k ≠ "" := by
    rcases hwhere with rfl | ⟨hpath, -⟩
    · exact htree.root_ne_empty
    · exact htree.ne_empty_of_mem hpath
  by_cases hwaits : row.messageId = some k
  · -- the message is the root of the tree, or an ancestor of the other row
    have hancestor : ∃ path', InTree mailbox row root path' ∧
        (k = root ∧ path' = [] ∨ path' ++ [k] <+: path) := by
      rcases hwhere with rfl | ⟨hpath, -⟩
      · obtain ⟨top, htop, hid⟩ := htree.exists_root
        obtain rfl := hcopies.eq hrow htop.mem_order hwaits hid
        exact ⟨[], htop, .inl ⟨rfl, rfl⟩⟩
      · obtain ⟨path', hancestor, hprefix⟩ := htree.of_messageId hcopies hpath hrow hwaits
        exact ⟨path', hancestor, .inr hprefix⟩
    obtain ⟨path', hancestor, hplace⟩ := hancestor
    obtain ⟨k', hk', hwhere'⟩ := hkey root path' hancestor
    have hnotmem : k ∉ path' := hancestor.not_mem_path hcopies hwaits
    by_cases hsame : k' = k
    · subst hsame
      rw [storeMessage_keep fun messageId hid hne _ => ?_]
      · exact ⟨k', hk, .inl (hwhere'.resolve_right fun hpath => hnotmem hpath.1)⟩
      · exact hne (hk'.trans ((message_id_of_messageId hwaits).symm.trans hid))
    · have hprefix : path' ++ [k] <+: path := by
        rcases hplace with ⟨rfl, rfl⟩ | hprefix
        · simp [hsame] at hwhere'
        · exact hprefix
      have hpath : k ∈ path := hprefix.subset (by simp)
      have hne : other ≠ row := by
        rintro rfl
        exact htree.not_mem_path hcopies hwaits hpath
      have hold : other ∈ stored := by
        rcases List.mem_append.mp hother with hold | hlast
        · exact hold
        · exact absurd (List.mem_singleton.mp hlast) hne
      have hids : other.id ≠ row.id := fun heq => hfresh (heq ▸ List.mem_map_of_mem hold)
      rw [if_neg hids] at hk
      have hempty' : k' ≠ "" := by
        rcases hwhere' with rfl | ⟨hpath', -⟩
        · exact hancestor.root_ne_empty
        · exact hancestor.ne_empty_of_mem hpath'
      have htruthy : truthy key.threadId = some k' := by simp [truthy, hk', hempty']
      obtain ⟨otherId, hotherId⟩ := Option.isSome_iff_exists.mp htree.live.2.2
      have hothers : other.message_id.any (· ≠ k) = true := by
        rw [message_id_of_messageId hotherId]
        have hdiffer : otherId ≠ k := by
          rintro rfl
          exact hne (hcopies.eq htree.mem_order hrow hotherId hwaits)
        simpa using hdiffer
      refine ⟨k', storeMessage_move (message_id_of_messageId hwaits) htruthy hsame hold hids hk hothers,
        hwhere'.imp_right fun hpath' => ⟨?_, ?_⟩⟩
      · exact hprefix.subset (List.mem_append_left _ hpath'.1)
      · refine (present_snoc _ _ _).mpr ⟨hpath'.2, fun hid => hsame ?_⟩
        exact (Option.some.inj (hwaits.symm.trans hid)).symm
  · rw [storeMessage_keep fun messageId hid _ hthread => ?_]
    · refine ⟨k, hk, hwhere.imp_right fun hpath => ⟨hpath.1, ?_⟩⟩
      exact (present_snoc _ _ _).mpr ⟨hpath.2, hwaits⟩
    · cases hk.symm.trans hthread
      exact hwaits (messageId_of_message_id hid hempty)

theorem Live.converging (h : Live .rfc columns₀ stored columns) (hcopies : NoCopies mailbox.order)
    (hstored : ∀ row ∈ stored, row ∈ mailbox.order) : Converging mailbox stored columns := by
  induction h with
  | nil =>
    intro row hrow
    simp at hrow
  | @arrive stored columns row answer _ hfresh hanswer ih =>
    have hold : ∀ row ∈ stored, row ∈ mailbox.order := fun row hrow =>
      hstored row (List.mem_append_left _ hrow)
    have hconverging := ih hold
    exact hconverging.store hcopies (hstored row (by simp)) hfresh fun root path htree =>
      hconverging.arrive hcopies hold hanswer htree

/-- Live threading leaves the messages of a tree with the key of its root. -/
theorem Live.groupsTrees (h : Live .rfc columns₀ stored columns) (hcopies : NoCopies mailbox.order)
    (hstored : ∀ row, row ∈ stored ↔ row ∈ mailbox.order) (htree : InTree mailbox row root path) :
    (columns row.id).threadId = some root := by
  obtain ⟨k, hkey, rfl | ⟨hpath, hnone⟩⟩ := h.converging hcopies (fun row hrow => (hstored row).mp hrow)
    row ((hstored row).mpr htree.mem_order) root path htree
  · exact hkey
  · obtain ⟨ancestor, path', hancestor, hid, -⟩ := htree.of_mem_path hpath
    have hmem := (hstored ancestor).mpr hancestor.mem_order
    have hthere : present stored k = true :=
      List.any_eq_true.mpr ⟨ancestor, hmem, decide_eq_true hid⟩
    rw [hthere] at hnone
    cases hnone

/-- **Live threading groups every tree; a recompute does** exactly when each reply that comes before
all the messages it names, names the root first. -/
theorem groupsTrees_iff (hcopies : NoCopies mailbox.order) (hinit : (system mailbox .rfc).init s₀) :
    (GroupsTrees mailbox s₀ ↔ EarlyRepliesNameRoot mailbox) ∧
      ∀ stored columns₀ columns, Live .rfc columns₀ stored columns →
        (∀ row, row ∈ stored ↔ row ∈ mailbox.order) → ∀ row root path, InTree mailbox row root path →
          (columns row.id).threadId = some root :=
  ⟨⟨fun h => h.earlyRepliesNameRoot hinit, fun h => h.groupsTrees hcopies hinit⟩,
    fun _ _ _ hlive hstored _ _ _ htree => hlive.groupsTrees hcopies hstored htree⟩

def first : Row := { id := 1, date := some 3, message_id := some "<r>" }

def second : Row := { id := 2, date := some 2, message_id := some "<c>", in_reply_to := some "<r>" }

/-- It names its parent only, and is dated before it. -/
def third : Row := { id := 3, date := some 1, message_id := some "<g>", in_reply_to := some "<c>" }

def skewed : Mailbox where
  rows := [first, second, third]
  distinct := by decide

theorem noCopies_skewed : NoCopies skewed.order := by
  rw [show skewed.order = [third, second, first] by decide]
  simp [NoCopies, first, second, third, Row.messageId, truthy]

theorem groupsTrees_skewed : (GroupsTrees skewed unthreaded ↔ EarlyRepliesNameRoot skewed) ∧
    ∀ stored columns₀ columns, Live .rfc columns₀ stored columns →
      (∀ row, row ∈ stored ↔ row ∈ skewed.order) → ∀ row root path, InTree skewed row root path →
        (columns row.id).threadId = some root :=
  groupsTrees_iff noCopies_skewed ⟨rfl, rfl⟩

/-- The reply of the reply is keyed by its parent, which the pass has not seen. -/
theorem not_groupsTrees : ¬ GroupsTrees skewed unthreaded := by
  intro h
  let begun : State := {
    columns := unthreaded.columns, recompute := some { target_mode := .rfc, total := 3 }
    pass := some { batchSize := 3, cursor := none, processed := 0, changed := 0, total := 3 } }
  have htrace : ((system skewed .rfc).exec uninterrupted begun
      [.batch [], .saveCursor, .tail [], .finish]).any (fun s => s.pass.isNone &&
        s.recompute.any (·.finished) && (s.columns 3).threadId = some "<c>") = true := by decide
  obtain ⟨s, hrun, hp⟩ := TransitionSystem.run_of_exec_any htrace
  simp only [Bool.and_eq_true, Option.isNone_iff_eq_none, decide_eq_true_eq] at hp
  obtain ⟨hfinished, hkey⟩ := hp
  have hfirst : InTree skewed first "<r>" [] :=
    .root (by decide) rfl (by decide) (by decide)
  have hsecond : InTree skewed second "<r>" ([] ++ ["<r>"]) :=
    .reply hfirst (by decide) (by decide) rfl (by decide) (by decide) (by decide)
  have hthird : InTree skewed third "<r>" (([] ++ ["<r>"]) ++ ["<c>"]) :=
    .reply hsecond (by decide) (by decide) rfl (by decide) (by decide) (by decide)
  have hroot := h s third "<r>" _ ⟨3, begun, rfl, hrun.anyStep, hfinished⟩ hthird
  rw [show third.id = 3 from rfl, hkey] at hroot
  simp at hroot

end MailExpert.Threading
