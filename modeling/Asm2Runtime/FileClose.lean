import Asm2Runtime.FileRegistry

/-!
# Closing a FILE is exclusive

The state of a wrapper and its operation count decide who may use the host FILE.
The argument reads the chains only to find wrappers, so it also covers runs in
which a closer unlinked through a stale link: a search may then miss a wrapper,
but it never invents one and it always ends, because every link leads to a
wrapper created earlier.
-/

namespace Asm2Runtime.FileRegistry

open LinkedChain Transition

/-! ## Every walk ends -/

/-- Links lead from a wrapper to one created earlier, and no wrapper lies at the
address of a standard stream. -/
structure Ranked (s : System) : Prop where
  plain : ∀ a ∈ s.created, standardStream s.registry a = none
  created : ∀ a ∈ s.created, s.registry.serial a < s.registry.createdCount
  heads : ∀ b a, s.registry.activeFiles b = some a → a ∈ s.created
  links : ∀ a b, s.registry.next a = some b →
    a ∈ s.created ∧ b ∈ s.created ∧ s.registry.serial b < s.registry.serial a
  waiting : ∀ x ∈ s.waiting, x.2.wrapper ∈ s.created ∧ ∀ p, x.2.link = .next p →
    p ∈ s.created ∧ s.registry.serial x.2.wrapper < s.registry.serial p

theorem initial_ranked (sF : Addr) : Ranked (initial sF) := by
  refine ⟨?_, ?_, ?_, ?_, ?_⟩ <;> simp [initial, Registry.next, unused]

/-- From every head a chain of at most createdCount wrappers hangs. -/
theorem Ranked.chain {s : System} (h : Ranked s) {b : Nat} :
    ∃ l, Chain s.registry.next (s.registry.activeFiles b) l ∧
      l.length ≤ s.registry.createdCount := by
  cases hb : s.registry.activeFiles b with
  | none => exact ⟨[], rfl, by simp⟩
  | some a =>
    obtain ⟨l, hl, hlen⟩ := exists_chain (fun a b hab => (h.links a b hab).2.2) a
    have := h.created a (h.heads b a hb)
    exact ⟨l, hl, by omega⟩

theorem Ranked.findActiveFileLocked {s : System} (h : Ranked s) (stream : Addr) :
    ∃ found, findActiveFileLocked s.registry stream = some found := by
  obtain ⟨l, hl, hlen⟩ := h.chain (b := fileBucket stream)
  exact ⟨_, find_eq hl hlen⟩

/-- The first section of a close always ends. -/
theorem Ranked.takeFileForClose {s : System} (h : Ranked s) (stream : Addr) :
    ∃ out, takeFileForClose s.registry stream = some out := by
  obtain ⟨l, hl, hlen⟩ := h.chain (b := fileBucket stream)
  have hseek : ∃ final, seek s.registry.activeFiles s.registry.next (· == stream)
      s.registry.createdCount (Link.head (fileBucket stream)) = some final ∧ _ := seek_eq hl hlen
  obtain ⟨final, hfinal, -⟩ := hseek
  unfold FileRegistry.takeFileForClose
  rw [hfinal]
  dsimp only
  split
  · exact ⟨_, rfl⟩
  · split <;> exact ⟨_, rfl⟩

theorem standardStream_congr {r r' : Registry} (h : r'.bionicSF = r.bionicSF) (stream : Addr) :
    standardStream r' stream = standardStream r stream := by
  simp [standardStream, h]

/-- A step that keeps links, heads and serials. -/
theorem Ranked.frame {s s' : System} (h : Ranked s)
    (hsF : s'.registry.bionicSF = s.registry.bionicSF)
    (hnext : s'.registry.next = s.registry.next)
    (hheads : s'.registry.activeFiles = s.registry.activeFiles)
    (hserial : s'.registry.serial = s.registry.serial)
    (hcount : s'.registry.createdCount = s.registry.createdCount)
    (hcreated : s'.created = s.created)
    (hwaiting : ∀ x ∈ s'.waiting, x.2.wrapper ∈ s.created ∧ ∀ p, x.2.link = .next p →
      p ∈ s.created ∧ s.registry.serial x.2.wrapper < s.registry.serial p) : Ranked s' := by
  refine ⟨?_, ?_, ?_, ?_, ?_⟩
  · intro a ha
    rw [standardStream_congr hsF]
    exact h.plain a (hcreated ▸ ha)
  · rw [hcreated, hserial, hcount]; exact h.created
  · rw [hcreated, hheads]; exact h.heads
  · rw [hcreated, hserial, hnext]; exact h.links
  · rw [hcreated, hserial]; exact hwaiting

theorem serial_takeFinish (r : Registry) (link : Link Nat Addr) (a : Addr) :
    (takeFinish r link a).serial = r.serial ∧
    (takeFinish r link a).createdCount = r.createdCount ∧
    (takeFinish r link a).bionicSF = r.bionicSF := by
  cases link <;> exact ⟨rfl, rfl, rfl⟩

/-- The new links and heads after a close come from the link of the closed wrapper. -/
theorem Ranked.finish {s : System} (h : Ranked s) {link : Link Nat Addr} {a : Addr}
    (hlink : ∀ p, link = .next p → p ∈ s.created ∧ s.registry.serial a < s.registry.serial p)
    (taken : List (Tid × Addr × Host)) (results : List (Addr × Fclose)) :
    Ranked { s with registry := takeFinish s.registry link a, taken, results } := by
  obtain ⟨hserial, hcount, hsF⟩ := serial_takeFinish s.registry link a
  refine ⟨?_, ?_, ?_, ?_, ?_⟩
  · intro x hx
    dsimp only
    rw [standardStream_congr hsF]
    exact h.plain x hx
  · intro x hx
    dsimp only
    rw [hserial, hcount]
    exact h.created x hx
  · intro b x hx
    cases link with
    | head c =>
      rw [activeFiles_takeFinish_head] at hx
      by_cases hb : b = c
      · subst b
        rw [Function.update_self] at hx
        exact (h.links a x hx).2.1
      · rw [Function.update_of_ne hb] at hx
        exact h.heads b x hx
    | next p =>
      rw [activeFiles_takeFinish_next] at hx
      exact h.heads b x hx
  · intro x y hxy
    dsimp only at hxy ⊢
    rw [hserial]
    cases link with
    | head c =>
      rw [next_takeFinish_head] at hxy
      by_cases hx : x = a
      · subst x; simp at hxy
      · rw [Function.update_of_ne hx] at hxy
        exact h.links x y hxy
    | next p =>
      rw [next_takeFinish_next] at hxy
      by_cases hx : x = a
      · subst x; simp at hxy
      · rw [Function.update_of_ne hx] at hxy
        by_cases hp : x = p
        · subst x
          rw [Function.update_self] at hxy
          obtain ⟨hpc, hlt⟩ := hlink p rfl
          obtain ⟨-, hyc, hylt⟩ := h.links a y hxy
          exact ⟨hpc, hyc, by omega⟩
        · rw [Function.update_of_ne hp] at hxy
          exact h.links x y hxy
  · intro x hx
    dsimp only at hx ⊢
    rw [hserial]
    exact h.waiting x hx

theorem Ranked.takeLoop {s : System} (h : Ranked s) (t : Tid) (stream : Addr)
    {link : Link Nat Addr} {a : Addr} {r : Registry} {take : Take} (ha : a ∈ s.created)
    (hlink : ∀ p, link = .next p → p ∈ s.created ∧ s.registry.serial a < s.registry.serial p)
    (htake : takeLoop s.registry link a = (r, take)) : Ranked (s.afterTake t stream r take) := by
  rcases takeLoop_cases htake with ⟨-, rfl, rfl⟩ | ⟨-, rfl, rfl⟩
  · refine h.frame rfl rfl rfl rfl rfl rfl ?_
    intro x hx
    rcases List.mem_cons.mp hx with rfl | hx
    · exact ⟨ha, hlink⟩
    · exact h.waiting x hx
  · cases (s.registry.wrapper a).host with
    | none => exact h.finish hlink _ _
    | some host => exact h.finish hlink _ _

/-- asm2_wrap_file gives the new wrapper the largest serial. -/
theorem Ranked.wrapFile {s : System} (h : Ranked s) {a : Addr} (hfresh : s.Fresh a) (host : Host)
    (mode : Option (List Char)) (fd : Int) :
    Ranked { s with
      registry := wrapFile s.registry host mode fd a
      hosts := host :: s.hosts, created := a :: s.created } := by
  have ha := hfresh.2.1
  have hold : ∀ x ∈ s.created, (FileRegistry.wrapFile s.registry host mode fd a).serial x =
      s.registry.serial x := by
    intro x hx
    have hxa : x ≠ a := by rintro rfl; exact ha hx
    simp [FileRegistry.wrapFile, Registry.setWrapper, hxa]
  have hnew : (FileRegistry.wrapFile s.registry host mode fd a).serial a =
      s.registry.createdCount := by
    simp [FileRegistry.wrapFile, Registry.setWrapper]
  refine ⟨?_, ?_, ?_, ?_, ?_⟩
  · intro x hx
    dsimp only
    rw [show standardStream (FileRegistry.wrapFile s.registry host mode fd a) x =
      standardStream s.registry x from standardStream_congr rfl x]
    rcases List.mem_cons.mp hx with rfl | hx
    · exact hfresh.2.2
    · exact h.plain x hx
  · intro x hx
    change _ < s.registry.createdCount + 1
    rcases List.mem_cons.mp hx with rfl | hx
    · dsimp only; omega
    · have := h.created x hx
      have := hold x hx
      dsimp only; omega
  · intro b x hx
    rw [activeFiles_wrapFile] at hx
    by_cases hb : b = fileBucket a
    · subst b
      obtain rfl : a = x := by simpa using hx
      simp
    · rw [Function.update_of_ne hb] at hx
      exact List.mem_cons_of_mem _ (h.heads b x hx)
  · intro x y hxy
    rw [next_wrapFile] at hxy
    by_cases hx : x = a
    · subst x
      rw [Function.update_self] at hxy
      have hy := h.heads _ y hxy
      have := h.created y hy
      refine ⟨by simp, List.mem_cons_of_mem _ hy, ?_⟩
      dsimp only
      rw [hnew, hold y hy]
      exact this
    · rw [Function.update_of_ne hx] at hxy
      obtain ⟨hxc, hyc, hlt⟩ := h.links x y hxy
      refine ⟨List.mem_cons_of_mem _ hxc, List.mem_cons_of_mem _ hyc, ?_⟩
      dsimp only
      rw [hold x hxc, hold y hyc]
      exact hlt
  · intro x hx
    obtain ⟨hc, hlink⟩ := h.waiting x hx
    refine ⟨List.mem_cons_of_mem _ hc, ?_⟩
    intro p hp
    obtain ⟨hpc, hlt⟩ := hlink p hp
    refine ⟨List.mem_cons_of_mem _ hpc, ?_⟩
    dsimp only
    rw [hold _ hc, hold p hpc]
    exact hlt

theorem step_ranked {s s' : System} {e : Event} (h : Ranked s) (hstep : step s e = some s') :
    Ranked s' := by
  cases step_effect hstep with
  | notOpened | refused | closeStandard => exact h
  | notWrapped | standard | releasedIdle | closeRefused | fclosed =>
    exact h.frame rfl rfl rfl rfl rfl rfl h.waiting
  | wrapped _ ha => exact h.wrapFile ha _ _ _
  | acquired | released =>
    exact h.frame rfl (Registry.next_setWrapper_same rfl) rfl rfl rfl rfl h.waiting
  | @closing t a link r take hload hopen hloop =>
    let r' := s.registry.setWrapper a { s.registry.wrapper a with state := .closing }
    have hbase : Ranked { s with registry := r' } :=
      h.frame rfl (Registry.next_setWrapper_same rfl) rfl rfl rfl rfl h.waiting
    cases link with
    | head b => exact hbase.takeLoop t a (h.heads b a hload) (by simp) hloop
    | next p =>
      obtain ⟨hp, ha, hlt⟩ := h.links p a hload
      refine hbase.takeLoop t a ha ?_ hloop
      intro q hq
      obtain rfl : p = q := by simpa using hq
      exact ⟨hp, hlt⟩
  | @woken t w r take hmem hloop =>
    obtain ⟨ha, hlink⟩ := h.waiting (t, w) hmem
    have hbase : Ranked { s with waiting := s.waiting.erase (t, w) } :=
      h.frame rfl rfl rfl rfl rfl rfl fun x hx => h.waiting x (List.mem_of_mem_erase hx)
    exact hbase.takeLoop t w.wrapper ha hlink hloop

/-! ## Who may use a host FILE -/

/-- The operation holds a reference to this wrapper. -/
def on (a : Addr) (x : Tid × StreamReference) : Bool := x.2.wrapper == some a

/-- The call of asm2_fclose on this stream handed a host FILE to fclose. -/
def obtains (a : Addr) (x : Addr × Fclose) : Bool :=
  match x with
  | (stream, .host _) => stream == a
  | (_, .eof _) => false

/-- Host FILEs that left the registry, those on their way to fclose included. -/
def System.gone (s : System) : List Host := s.taken.map (fun x => x.2.2) ++ s.fclosed

/-- The protocol of state, host and operation count. -/
structure Protocol (s : System) : Prop where
  absent : ∀ a, a ∉ s.created → (s.registry.wrapper a).state = .closed
  operations : ∀ a, (s.registry.wrapper a).activeOperations = s.operating.countP (on a)
  references : ∀ x ∈ s.operating, ∀ a, x.2.wrapper = some a →
    (s.registry.wrapper a).state ≠ .closed ∧ x.2.host = (s.registry.wrapper a).host
  closing : ∀ x ∈ s.waiting, (s.registry.wrapper x.2.wrapper).state = .closing
  distinct : (s.waiting.map fun x => x.2.wrapper).Nodup
  hosted : ∀ a, (s.registry.wrapper a).state ≠ .closed →
    ∃ h ∈ s.hosts, (s.registry.wrapper a).host = some h ∧ h ∉ s.gone
  injective : ∀ a b, (s.registry.wrapper a).state ≠ .closed → (s.registry.wrapper b).state ≠ .closed →
    (s.registry.wrapper a).host = (s.registry.wrapper b).host → a = b
  goneNodup : s.gone.Nodup
  goneHosts : ∀ h ∈ s.gone, h ∈ s.hosts
  taken : ∀ x ∈ s.taken, x.2.1 ∈ s.created ∧ (s.registry.wrapper x.2.1).state = .closed
  outcome : ∀ x ∈ s.results, x.2 = .eof EBADF ∨ ∃ h, x.2 = .host h
  won : ∀ a, s.results.countP (obtains a) ≤ 1
  wonClosed : ∀ a, 0 < s.results.countP (obtains a) →
    a ∈ s.created ∧ (s.registry.wrapper a).state = .closed

theorem initial_protocol (sF : Addr) : Protocol (initial sF) := by
  refine ⟨?_, ?_, ?_, ?_, ?_, ?_, ?_, ?_, ?_, ?_, ?_, ?_, ?_⟩ <;>
    simp [initial, unused, System.gone]

/-- Steps after which every wrapper has the same host and count and no other
wrapper is closed. -/
theorem Protocol.frame {s s' : System} (h : Protocol s)
    (hclosed : ∀ a, (s'.registry.wrapper a).state = .closed ↔ (s.registry.wrapper a).state = .closed)
    (hwrapper : ∀ a, (s'.registry.wrapper a).host = (s.registry.wrapper a).host ∧
      (s'.registry.wrapper a).activeOperations = (s.registry.wrapper a).activeOperations)
    (hcreated : s'.created = s.created) (hoperating : s'.operating = s.operating)
    (hwaiting : ∀ x ∈ s'.waiting, (s'.registry.wrapper x.2.wrapper).state = .closing)
    (hdistinct : (s'.waiting.map fun x => x.2.wrapper).Nodup)
    (hhosts : ∀ x ∈ s.hosts, x ∈ s'.hosts)
    (hgone : ∀ x, x ∈ s'.gone → x ∈ s.gone ∨ x ∉ s.hosts) (hnodup : s'.gone.Nodup)
    (hgoneHosts : ∀ x ∈ s'.gone, x ∈ s'.hosts)
    (htaken : ∀ x ∈ s'.taken, x ∈ s.taken)
    (houtcome : ∀ x ∈ s'.results, x.2 = .eof EBADF ∨ ∃ h, x.2 = .host h)
    (hwon : ∀ a, s'.results.countP (obtains a) = s.results.countP (obtains a)) : Protocol s' := by
  refine ⟨?_, ?_, ?_, hwaiting, hdistinct, ?_, ?_, hnodup, hgoneHosts, ?_, houtcome, ?_, ?_⟩
  · intro a ha
    exact (hclosed a).mpr (h.absent a (hcreated ▸ ha))
  · intro a
    rw [(hwrapper a).2, hoperating]
    exact h.operations a
  · intro x hx a ha
    rw [Ne, hclosed, (hwrapper a).1]
    exact h.references x (hoperating ▸ hx) a ha
  · intro a ha
    rw [Ne, hclosed] at ha
    obtain ⟨g, hg, heq, hng⟩ := h.hosted a ha
    refine ⟨g, hhosts g hg, by rw [(hwrapper a).1, heq], ?_⟩
    intro hm
    rcases hgone g hm with hm | hm
    · exact hng hm
    · exact hm hg
  · intro a b ha hb heq
    rw [Ne, hclosed] at ha hb
    rw [(hwrapper a).1, (hwrapper b).1] at heq
    exact h.injective a b ha hb heq
  · intro x hx
    rw [hcreated, hclosed]
    exact h.taken x (htaken x hx)
  · intro a
    rw [hwon]
    exact h.won a
  · intro a ha
    rw [hwon] at ha
    rw [hcreated, hclosed]
    exact h.wonClosed a ha

theorem Protocol.created {s : System} (h : Protocol s) {a : Addr}
    (ha : (s.registry.wrapper a).state ≠ .closed) : a ∈ s.created := by
  by_contra hn
  exact ha (h.absent a hn)

/-- A wrapper starts open, without operations, with a host FILE nobody has. -/
theorem Protocol.wrapFile {s : System} (h : Protocol s) {a : Addr} {host : Host}
    (ha : a ∉ s.created) (hhost : host ∉ s.hosts) (mode : Option (List Char)) (fd : Int) :
    Protocol { s with
      registry := wrapFile s.registry host mode fd a
      hosts := host :: s.hosts, created := a :: s.created } := by
  have hclosed := h.absent a ha
  have hother : ∀ x, x ≠ a → (FileRegistry.wrapFile s.registry host mode fd a).wrapper x =
      s.registry.wrapper x := by
    intro x hx
    simp [FileRegistry.wrapFile, hx]
  have hself : ((FileRegistry.wrapFile s.registry host mode fd a).wrapper a).state = .opened ∧
      ((FileRegistry.wrapFile s.registry host mode fd a).wrapper a).host = some host ∧
      ((FileRegistry.wrapFile s.registry host mode fd a).wrapper a).activeOperations = 0 := by
    simp [FileRegistry.wrapFile]
  have hunshared : ∀ b, (s.registry.wrapper b).state ≠ .closed →
      (s.registry.wrapper b).host ≠ some host := by
    intro b hb he
    obtain ⟨g, hg, heq, -⟩ := h.hosted b hb
    rw [heq] at he
    exact hhost (Option.some.inj he ▸ hg)
  have hlive : ∀ b, (s.registry.wrapper b).state ≠ .closed → b ≠ a := by
    rintro b hb rfl
    exact hb hclosed
  refine ⟨?_, ?_, ?_, ?_, h.distinct, ?_, ?_, h.goneNodup, ?_, ?_, h.outcome, h.won, ?_⟩
  · intro x hx
    have hxa : x ≠ a := by rintro rfl; simp at hx
    dsimp only
    rw [hother x hxa]
    exact h.absent x fun hm => hx (List.mem_cons_of_mem _ hm)
  · intro x
    dsimp only
    by_cases hx : x = a
    · subst x
      rw [hself.2.2, eq_comm, List.countP_eq_zero]
      intro y hy hon
      exact (h.references y hy a (by simpa [on] using hon)).1 hclosed
    · rw [hother x hx]
      exact h.operations x
  · intro x hx b hb
    have hr := h.references x hx b hb
    dsimp only
    rw [hother b (hlive b hr.1)]
    exact hr
  · intro x hx
    have hc := h.closing x hx
    dsimp only
    rw [hother _ (hlive _ (by simp [hc]))]
    exact hc
  · intro b hb
    dsimp only at hb ⊢
    by_cases hba : b = a
    · subst b
      exact ⟨host, by simp, hself.2.1, fun hm => hhost (h.goneHosts host hm)⟩
    · rw [hother b hba] at hb ⊢
      obtain ⟨g, hg, heq, hng⟩ := h.hosted b hb
      exact ⟨g, List.mem_cons_of_mem _ hg, heq, hng⟩
  · intro b c hb hc heq
    dsimp only at hb hc heq
    by_cases hba : b = a <;> by_cases hca : c = a
    · rw [hba, hca]
    · subst b
      rw [hother c hca] at hc heq
      rw [hself.2.1] at heq
      exact absurd heq.symm (hunshared c hc)
    · subst c
      rw [hother b hba] at hb heq
      rw [hself.2.1] at heq
      exact absurd heq (hunshared b hb)
    · rw [hother b hba] at hb heq
      rw [hother c hca] at hc heq
      exact h.injective b c hb hc heq
  · intro g hg
    exact List.mem_cons_of_mem _ (h.goneHosts g hg)
  · intro x hx
    obtain ⟨hc, hs⟩ := h.taken x hx
    have hxa : x.2.1 ≠ a := by intro he; exact ha (he ▸ hc)
    dsimp only
    rw [hother _ hxa]
    exact ⟨List.mem_cons_of_mem _ hc, hs⟩
  · intro b hb
    obtain ⟨hbc, hbs⟩ := h.wonClosed b hb
    have hba : b ≠ a := by rintro rfl; exact ha hbc
    dsimp only
    rw [hother b hba]
    exact ⟨List.mem_cons_of_mem _ hbc, hbs⟩

/-- Another set of unreleased operations, with the counts to match. -/
theorem Protocol.operate {s : System} (h : Protocol s) {r : Registry}
    (operating : List (Tid × StreamReference))
    (hwrapper : ∀ a, (r.wrapper a).state = (s.registry.wrapper a).state ∧
      (r.wrapper a).host = (s.registry.wrapper a).host)
    (hcount : ∀ a, (r.wrapper a).activeOperations = operating.countP (on a))
    (hrefs : ∀ x ∈ operating, ∀ a, x.2.wrapper = some a →
      (s.registry.wrapper a).state ≠ .closed ∧ x.2.host = (s.registry.wrapper a).host) :
    Protocol { s with registry := r, operating } := by
  refine ⟨?_, hcount, ?_, ?_, h.distinct, ?_, ?_, h.goneNodup, h.goneHosts, ?_, h.outcome, h.won, ?_⟩
  · intro a ha
    dsimp only
    rw [(hwrapper a).1]
    exact h.absent a ha
  · intro x hx a ha
    dsimp only
    rw [(hwrapper a).1, (hwrapper a).2]
    exact hrefs x hx a ha
  · intro x hx
    dsimp only
    rw [(hwrapper _).1]
    exact h.closing x hx
  · intro a ha
    dsimp only at ha ⊢
    rw [(hwrapper a).1] at ha
    rw [(hwrapper a).2]
    exact h.hosted a ha
  · intro a b ha hb heq
    dsimp only at ha hb heq
    rw [(hwrapper a).1] at ha
    rw [(hwrapper b).1] at hb
    rw [(hwrapper a).2, (hwrapper b).2] at heq
    exact h.injective a b ha hb heq
  · intro x hx
    dsimp only
    rw [(hwrapper _).1]
    exact h.taken x hx
  · intro a ha
    dsimp only
    rw [(hwrapper a).1]
    exact h.wonClosed a ha

theorem Protocol.acquired {s : System} (h : Protocol s) (t : Tid) {a : Addr}
    (hopen : (s.registry.wrapper a).state = .opened) :
    Protocol { s with
      registry := s.registry.setWrapper a { s.registry.wrapper a with
        activeOperations := (s.registry.wrapper a).activeOperations + 1 }
      operating := (t, ⟨(s.registry.wrapper a).host, some a⟩) :: s.operating } := by
  refine h.operate _ ?_ ?_ ?_
  · intro b
    by_cases hb : b = a
    · subst b; simp
    · simp [hb]
  · intro b
    have hb := h.operations b
    by_cases hba : b = a
    · subst b; simp [on, hb]
    · simp [on, hba, Ne.symm hba, hb]
  · intro x hx b hb
    rcases List.mem_cons.mp hx with rfl | hx
    · obtain rfl : a = b := by simpa using hb
      simp [hopen]
    · exact h.references x hx b hb

theorem Protocol.released {s : System} (h : Protocol s) {t : Tid} {reference : StreamReference}
    (hmem : (t, reference) ∈ s.operating) {a : Addr} (ha : reference.wrapper = some a) :
    Protocol { s with
      registry := s.registry.setWrapper a { s.registry.wrapper a with
        activeOperations := (s.registry.wrapper a).activeOperations - 1 }
      operating := s.operating.erase (t, reference) } := by
  refine h.operate _ ?_ ?_ ?_
  · intro b
    by_cases hb : b = a
    · subst b; simp
    · simp [hb]
  · intro b
    have hb := h.operations b
    have hperm := (List.perm_cons_erase hmem).countP_eq (on b)
    by_cases hba : b = a
    · subst b
      rw [List.countP_cons_of_pos (by simp [on, ha])] at hperm
      simp only [Registry.wrapper_setWrapper, Function.update_self]
      omega
    · rw [List.countP_cons_of_neg (by simp [on, ha, Ne.symm hba])] at hperm
      simp only [Registry.wrapper_setWrapper, Function.update_of_ne hba]
      omega
  · intro x hx b hb
    exact h.references x (List.mem_of_mem_erase hx) b hb

/-- An operation on a wrapper is counted, so a reference to one whose count is
zero has none. -/
theorem Protocol.released_standard {s : System} (h : Protocol s) {t : Tid}
    {reference : StreamReference} (hmem : (t, reference) ∈ s.operating)
    (hidle : ∀ a, reference.wrapper = some a → (s.registry.wrapper a).activeOperations = 0) :
    Protocol { s with operating := s.operating.erase (t, reference) } := by
  have hnone : ∀ a, reference.wrapper ≠ some a := by
    intro a ha
    have hcount := h.operations a
    rw [hidle a ha, eq_comm, List.countP_eq_zero] at hcount
    exact hcount _ hmem (by simp [on, ha])
  refine h.operate _ (fun _ => ⟨rfl, rfl⟩) ?_ ?_
  · intro a
    have hperm := (List.perm_cons_erase hmem).countP_eq (on a)
    rw [List.countP_cons_of_neg (by simp [on, hnone a])] at hperm
    rw [← hperm]
    exact h.operations a
  · intro x hx a ha
    exact h.references x (List.mem_of_mem_erase hx) a ha

/-- The close completes: the host FILE moves from the wrapper to the closer. -/
theorem Protocol.finish {s : System} (h : Protocol s) (t : Tid) {a : Addr} {link : Link Nat Addr}
    {host : Host} (hclosing : (s.registry.wrapper a).state = .closing)
    (hidle : (s.registry.wrapper a).activeOperations = 0)
    (hwait : ∀ x ∈ s.waiting, x.2.wrapper ≠ a)
    (hhost : (s.registry.wrapper a).host = some host) :
    Protocol { s with
      registry := takeFinish s.registry link a
      taken := (t, a, host) :: s.taken, results := (a, .host host) :: s.results } := by
  have hw := takeFinish_wrapper s.registry link a
  have hlive : (s.registry.wrapper a).state ≠ .closed := by simp [hclosing]
  obtain ⟨g, hg, heq, hng⟩ := h.hosted a hlive
  obtain rfl : host = g := by simpa [hhost] using heq
  have hunused : s.results.countP (obtains a) = 0 := by
    by_contra hn
    exact hlive (h.wonClosed a (by omega)).2
  have hkept : ∀ b, ((takeFinish s.registry link a).wrapper b).state ≠ .closed →
      b ≠ a ∧ (s.registry.wrapper b).state ≠ .closed := by
    intro b hb
    rw [(hw b).1] at hb
    by_cases hba : b = a
    · simp [hba] at hb
    · exact ⟨hba, by simpa [hba] using hb⟩
  refine ⟨?_, ?_, ?_, ?_, h.distinct, ?_, ?_, ?_, ?_, ?_, ?_, ?_, ?_⟩
  · intro b hb
    dsimp only
    rw [(hw b).1]
    by_cases hba : b = a
    · simp [hba]
    · simpa [hba] using h.absent b hb
  · intro b
    dsimp only
    rw [(hw b).2.2]
    exact h.operations b
  · intro x hx b hb
    have hba : b ≠ a := by
      rintro rfl
      have hcount := h.operations b
      rw [hidle, eq_comm, List.countP_eq_zero] at hcount
      exact hcount x hx (by simp [on, hb])
    dsimp only
    rw [(hw b).1, (hw b).2.1, if_neg hba, if_neg hba]
    exact h.references x hx b hb
  · intro x hx
    dsimp only
    rw [(hw _).1, if_neg (hwait x hx)]
    exact h.closing x hx
  · intro b hb
    obtain ⟨hba, hbl⟩ := hkept b hb
    obtain ⟨f, hf, hfeq, hnf⟩ := h.hosted b hbl
    refine ⟨f, hf, ?_, ?_⟩
    · dsimp only
      rw [(hw b).2.1, if_neg hba, hfeq]
    · intro hm
      rcases List.mem_cons.mp hm with rfl | hm
      · exact hba (h.injective b a hbl hlive (by rw [hfeq, hhost]))
      · exact hnf hm
  · intro b c hb hc he
    obtain ⟨hba, hbl⟩ := hkept b hb
    obtain ⟨hca, hcl⟩ := hkept c hc
    dsimp only at he
    rw [(hw b).2.1, (hw c).2.1, if_neg hba, if_neg hca] at he
    exact h.injective b c hbl hcl he
  · exact List.nodup_cons.mpr ⟨hng, h.goneNodup⟩
  · intro f hf
    rcases List.mem_cons.mp hf with rfl | hf
    · exact hg
    · exact h.goneHosts f hf
  · intro x hx
    dsimp only
    rw [(hw _).1]
    rcases List.mem_cons.mp hx with rfl | hx
    · exact ⟨h.created hlive, by simp⟩
    · obtain ⟨hc, hs⟩ := h.taken x hx
      exact ⟨hc, by simp [hs]⟩
  · intro x hx
    rcases List.mem_cons.mp hx with rfl | hx
    · exact .inr ⟨host, rfl⟩
    · exact h.outcome x hx
  · intro b
    have hb := h.won b
    by_cases hba : b = a
    · subst b
      rw [List.countP_cons_of_pos (by simp [obtains])]
      omega
    · rw [List.countP_cons_of_neg (by simp [obtains, Ne.symm hba])]
      exact hb
  · intro b hb
    dsimp only
    rw [(hw b).1]
    by_cases hba : b = a
    · subst b
      exact ⟨h.created hlive, by simp⟩
    · rw [List.countP_cons_of_neg (by simp [obtains, Ne.symm hba])] at hb
      obtain ⟨hc, hs⟩ := h.wonClosed b hb
      exact ⟨hc, by simp [hs]⟩

theorem Protocol.takeLoop {s : System} (h : Protocol s) (t : Tid) {a : Addr}
    {link : Link Nat Addr} {r : Registry} {take : Take}
    (hclosing : (s.registry.wrapper a).state = .closing)
    (hwait : ∀ x ∈ s.waiting, x.2.wrapper ≠ a)
    (htake : takeLoop s.registry link a = (r, take)) : Protocol (s.afterTake t a r take) := by
  rcases takeLoop_cases htake with ⟨-, rfl, rfl⟩ | ⟨hidle, rfl, rfl⟩
  · refine h.frame (fun _ => Iff.rfl) (fun _ => ⟨rfl, rfl⟩) rfl rfl ?_ ?_ (fun _ hx => hx)
      (fun _ hx => .inl hx)
      h.goneNodup h.goneHosts (fun _ hx => hx) h.outcome (fun _ => rfl)
    · intro x hx
      rcases List.mem_cons.mp hx with rfl | hx
      · exact hclosing
      · exact h.closing x hx
    · refine List.nodup_cons.mpr ⟨?_, h.distinct⟩
      intro hm
      obtain ⟨x, hx, he⟩ := List.mem_map.mp hm
      exact hwait x hx he
  · obtain ⟨host, -, hhost, -⟩ := h.hosted a (by simp [hclosing])
    rw [hhost]
    exact h.finish t hclosing hidle hwait hhost

theorem step_protocol {s s' : System} {e : Event} (h : Protocol s) (hstep : step s e = some s') :
    Protocol s' := by
  cases step_effect hstep with
  | notOpened | refused | closeStandard => exact h
  | @notWrapped t host mode fd hhost =>
    refine h.frame (fun _ => Iff.rfl) (fun _ => ⟨rfl, rfl⟩) rfl rfl h.closing h.distinct
      (fun _ hx => List.mem_cons_of_mem _ hx) ?_ ?_ ?_ (fun _ hx => hx) h.outcome (fun _ => rfl)
    · intro x hx
      by_cases hxh : x = host
      · exact .inr (hxh ▸ hhost)
      · simp only [System.gone, List.mem_append, List.mem_cons, hxh, false_or] at hx ⊢
        exact .inl hx
    · have hperm : (s.taken.map (fun x => x.2.2) ++ host :: s.fclosed).Perm (host :: s.gone) :=
        List.perm_middle
      exact hperm.nodup_iff.mpr (List.nodup_cons.mpr
        ⟨fun hm => hhost (h.goneHosts host hm), h.goneNodup⟩)
    · intro x hx
      by_cases hxh : x = host
      · simp [hxh]
      · simp only [System.gone, List.mem_append, List.mem_cons, hxh, false_or] at hx
        exact List.mem_cons_of_mem _ (h.goneHosts x (List.mem_append.mpr hx))
  | wrapped hhost ha => exact h.wrapFile ha.2.1 hhost _ _
  | @standard t stream host =>
    refine h.operate _ (fun _ => ⟨rfl, rfl⟩) ?_ ?_
    · intro a
      rw [List.countP_cons_of_neg (by simp [on])]
      exact h.operations a
    · intro x hx a ha
      rcases List.mem_cons.mp hx with rfl | hx
      · cases ha
      · exact h.references x hx a ha
  | acquired hopen => exact h.acquired _ hopen
  | releasedIdle hmem hidle => exact h.released_standard hmem hidle
  | released hmem ha => exact h.released hmem ha
  | closeRefused =>
    refine h.frame (fun _ => Iff.rfl) (fun _ => ⟨rfl, rfl⟩) rfl rfl h.closing h.distinct
      (fun _ hx => hx)
      (fun _ hx => .inl hx) h.goneNodup h.goneHosts (fun _ hx => hx) ?_ ?_
    · intro x hx
      rcases List.mem_cons.mp hx with rfl | hx
      · exact .inl rfl
      · exact h.outcome x hx
    · intro a
      rw [List.countP_cons_of_neg (by simp [obtains])]
  | @closing t a link r take hload hopen hloop =>
    let r' := s.registry.setWrapper a { s.registry.wrapper a with state := .closing }
    have hwait : ∀ x ∈ s.waiting, x.2.wrapper ≠ a := by
      intro x hx he
      have := h.closing x hx
      rw [he, hopen] at this
      cases this
    have hsame : ∀ b, ((r'.wrapper b).state = .closed ↔ (s.registry.wrapper b).state = .closed) ∧
        (r'.wrapper b).host = (s.registry.wrapper b).host ∧
        (r'.wrapper b).activeOperations = (s.registry.wrapper b).activeOperations := by
      intro b
      by_cases hb : b = a
      · subst b; simp [r', hopen]
      · simp [r', hb]
    have hbase : Protocol { s with registry := r' } := by
      refine h.frame (fun b => (hsame b).1) (fun b => (hsame b).2) rfl rfl ?_ h.distinct
        (fun _ hx => hx) (fun _ hx => .inl hx) h.goneNodup h.goneHosts (fun _ hx => hx) h.outcome
        (fun _ => rfl)
      intro x hx
      simpa [r', hwait x hx] using h.closing x hx
    exact hbase.takeLoop t (by simp [r']) hwait hloop
  | @woken t w r take hmem hloop =>
    have hperm := List.perm_cons_erase hmem
    have hdistinct := (hperm.map fun x => x.2.wrapper).nodup_iff.mp h.distinct
    rw [List.map_cons, List.nodup_cons] at hdistinct
    have hbase : Protocol { s with waiting := s.waiting.erase (t, w) } :=
      h.frame (fun _ => Iff.rfl) (fun _ => ⟨rfl, rfl⟩) rfl rfl
        (fun x hx => h.closing x (List.mem_of_mem_erase hx)) hdistinct.2 (fun _ hx => hx)
        (fun _ hx => .inl hx) h.goneNodup h.goneHosts (fun _ hx => hx) h.outcome (fun _ => rfl)
    refine hbase.takeLoop t (h.closing (t, w) hmem) ?_ hloop
    intro x hx he
    exact hdistinct.1 (List.mem_map.mpr ⟨x, hx, he⟩)
  | @fclosed t a host hmem =>
    have hperm : (System.gone { s with
        taken := s.taken.erase (t, a, host), fclosed := host :: s.fclosed }).Perm s.gone := by
      have hp := ((List.perm_cons_erase hmem).map fun x => x.2.2).append_right s.fclosed
      exact List.perm_middle.trans hp.symm
    exact h.frame (fun _ => Iff.rfl) (fun _ => ⟨rfl, rfl⟩) rfl rfl h.closing h.distinct
      (fun _ hx => hx)
      (fun x hx => .inl (hperm.mem_iff.mp hx)) (hperm.nodup_iff.mpr h.goneNodup)
      (fun x hx => h.goneHosts x (hperm.mem_iff.mp hx)) (fun x hx => List.mem_of_mem_erase hx)
      h.outcome (fun _ => rfl)

/-! ## States only advance -/

def FileState.stage : FileState → Nat
  | .opened => 0
  | .closing => 1
  | .closed => 2

/-- No wrapper goes back to an earlier state. -/
def Advances (s u : System) : Prop :=
  ∀ a ∈ s.created, a ∈ u.created ∧
    (s.registry.wrapper a).state.stage ≤ (u.registry.wrapper a).state.stage

theorem advances_takeLoop {s : System} (t : Tid) (stream : Addr) {a : Addr} {link : Link Nat Addr}
    {r : Registry} {take : Take} (htake : takeLoop s.registry link a = (r, take)) :
    Advances s (s.afterTake t stream r take) := by
  rcases takeLoop_cases htake with ⟨-, rfl, rfl⟩ | ⟨-, rfl, rfl⟩
  · exact fun x hx => ⟨hx, Nat.le_refl _⟩
  · intro x hx
    have hstate : (s.registry.wrapper x).state.stage ≤
        ((takeFinish s.registry link a).wrapper x).state.stage := by
      rw [(takeFinish_wrapper s.registry link a x).1]
      by_cases hxa : x = a
      · rw [if_pos hxa]; cases (s.registry.wrapper x).state <;> decide
      · simp [hxa]
    cases (s.registry.wrapper a).host with
    | none => exact ⟨hx, hstate⟩
    | some host => exact ⟨hx, hstate⟩

theorem step_advances {s s' : System} {e : Event} (hstep : step s e = some s') :
    Advances s s' := by
  cases step_effect hstep with
  | notOpened | refused | closeStandard | notWrapped | standard | releasedIdle | closeRefused
  | fclosed => exact fun x hx => ⟨hx, Nat.le_refl _⟩
  | @wrapped t host mode fd a _ ha =>
    intro x hx
    have hxa : x ≠ a := by rintro rfl; exact ha.2.1 hx
    exact ⟨List.mem_cons_of_mem _ hx, by simp [wrapFile, hxa]⟩
  | @acquired t a | @released t reference a =>
    intro x hx
    by_cases hxa : x = a
    · subst x; exact ⟨hx, by simp⟩
    · exact ⟨hx, by simp [hxa]⟩
  | @closing t a link r take hload hopen hloop =>
    let r' := s.registry.setWrapper a { s.registry.wrapper a with state := .closing }
    intro x hx
    obtain ⟨hm, hle⟩ := advances_takeLoop (s := { s with registry := r' }) t a hloop x hx
    refine ⟨hm, Nat.le_trans ?_ hle⟩
    by_cases hxa : x = a
    · subst x; simp [hopen, FileState.stage]
    · simp [r', hxa]
  | @woken t w r take hmem hloop =>
    exact advances_takeLoop (s := { s with waiting := s.waiting.erase (t, w) }) t _ hloop

theorem run_advances {s u : System} {es : List Event} (hrun : run step s es = some u) :
    Advances s u :=
  run_relation (P := fun _ => True) (R := Advances) (fun _ _ _ _ _ => trivial)
    (fun _ _ hx => ⟨hx, Nat.le_refl _⟩)
    (fun _ _ _ hst htu a ha =>
      ⟨(htu a (hst a ha).1).1, Nat.le_trans (hst a ha).2 (htu a (hst a ha).1).2⟩)
    (fun _ _ _ _ hstep => step_advances hstep) trivial hrun

/-! ## The close is exclusive -/

/-- What the registry promises about closes, in this state and from it on. -/
structure CloseExclusive (s : System) : Prop where
  once : s.fclosed.Nodup
  drained : ∀ t a h s', step s (.fcloseHost t a h) = some s' → ∀ x ∈ s.operating,
    x.2.wrapper ≠ some a ∧ (x.2.wrapper ≠ none → x.2.host ≠ some h)
  refused : ∀ a ∈ s.created, (s.registry.wrapper a).state ≠ .opened →
    ∀ es u, run step s es = some u → ∀ stream r reference,
      acquireStream u.registry stream = some (r, .granted reference) → reference.wrapper ≠ some a
  single : ∀ stream, s.results.countP (obtains stream) ≤ 1
  losers : ∀ x ∈ s.results, obtains x.1 x = false → x.2 = .eof EBADF
  answered : ∀ stream, (takeFileForClose s.registry stream).isSome
  dead : ∀ a ∈ s.created, (s.registry.wrapper a).state = .closed →
    ∀ es u, run step s es = some u → acquireStream u.registry a = some (u.registry, .rejected EBADF)

/-- The operation on a wrapper that is not open is refused, whatever the chains
look like. -/
theorem Ranked.refuses {s : System} (h : Ranked s) {a : Addr}
    (hstate : (s.registry.wrapper a).state ≠ .opened) (hstd : standardStream s.registry a = none) :
    acquireStream s.registry a = some (s.registry, .rejected EBADF) := by
  obtain ⟨found, hfound⟩ := h.findActiveFileLocked a
  cases hacq : acquireStream s.registry a with
  | none => cases found <;> simp [acquireStream, hstd, hfound] at hacq; split at hacq <;> simp at hacq
  | some out =>
    obtain ⟨r, out⟩ := out
    rcases acquireStream_cases hacq with ⟨host, hh, -, -⟩ | ⟨rfl, rfl⟩ | ⟨hopen, -, -⟩
    · simp [hstd] at hh
    · rfl
    · exact absurd hopen hstate

theorem run_ranked {sF : Addr} {es : List Event} {s : System}
    (hrun : run step (initial sF) es = some s) : Ranked s :=
  run_invariant (fun _ _ _ h hstep => step_ranked h hstep) (initial_ranked sF) hrun

theorem run_protocol {sF : Addr} {es : List Event} {s : System}
    (hrun : run step (initial sF) es = some s) : Protocol s :=
  run_invariant (fun _ _ _ h hstep => step_protocol h hstep) (initial_protocol sF) hrun

/-- Every state of every run keeps the promises of the close. -/
theorem fclose_exclusive (sF : Addr) (es : List Event) (s : System)
    (hrun : run step (initial sF) es = some s) : CloseExclusive s := by
  have hranked := run_ranked hrun
  have hprotocol := run_protocol hrun
  refine ⟨?_, ?_, ?_, hprotocol.won, ?_, ?_, ?_⟩
  · exact (List.nodup_append.mp hprotocol.goneNodup).2.1
  · intro t a h s' hstep x hx
    cases step_effect hstep with
    | fclosed hmem =>
      have hgone : h ∈ s.gone :=
        List.mem_append_left _ (List.mem_map.mpr ⟨_, hmem, rfl⟩)
      refine ⟨?_, ?_⟩
      · intro ha
        exact (hprotocol.references x hx a ha).1 (hprotocol.taken _ hmem).2
      · intro hsome hhost
        obtain ⟨b, hb⟩ := Option.ne_none_iff_exists'.mp hsome
        obtain ⟨hlive, heq⟩ := hprotocol.references x hx b hb
        obtain ⟨g, -, hg, hng⟩ := hprotocol.hosted b hlive
        rw [hhost, hg] at heq
        exact hng (Option.some.inj heq ▸ hgone)
  · intro a ha hstate fs u hfs stream r reference hacq
    have hle := (run_advances hfs a ha).2
    rcases acquireStream_cases hacq with ⟨host, -, -, hout⟩ | ⟨-, hout⟩ | ⟨hopen, -, hout⟩
    · obtain rfl := Acquire.granted.inj hout
      simp
    · cases hout
    · obtain rfl := Acquire.granted.inj hout
      intro he
      obtain rfl : stream = a := by simpa using he
      rw [hopen] at hle
      revert hstate hle
      cases (s.registry.wrapper stream).state <;> simp [FileState.stage]
  · intro x hx hlost
    rcases hprotocol.outcome x hx with heof | ⟨h, hhost⟩
    · exact heof
    · obtain ⟨stream, out⟩ := x
      subst hhost
      simp [obtains] at hlost
  · intro stream
    obtain ⟨out, hout⟩ := hranked.takeFileForClose stream
    simp [hout]
  · intro a ha hstate fs u hfs
    obtain ⟨hcreated, hle⟩ := run_advances hfs a ha
    have hranked' := run_ranked (run_append_some.mpr ⟨s, hrun, hfs⟩)
    refine hranked'.refuses ?_ (hranked'.plain a hcreated)
    intro hopen
    rw [hstate, hopen] at hle
    exact absurd hle (by decide)

/-- Two closers and an operation on one stream. -/
def contendedClose : List Event :=
  [.wrapFile 1 (some (.opened 0)) (some ['r']) 3 (some 0x10000),
   .acquire 2 0x10000,
   .fclose 3 0x10000,
   .fclose 4 0x10000,
   .acquire 5 0x10000,
   .release 2 ⟨some (.opened 0), some 0x10000⟩,
   .wake 3 ⟨.head 257, 0x10000⟩]

theorem fclose_exclusive_contended :
    ∃ s, run step (initial 0x8000) contendedClose = some s ∧
      s.results = [(0x10000, .host (.opened 0)), (0x10000, .eof EBADF)] ∧ CloseExclusive s :=
  ⟨_, rfl, rfl, fclose_exclusive 0x8000 contendedClose _ rfl⟩

end Asm2Runtime.FileRegistry
