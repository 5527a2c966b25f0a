import Asm2Runtime.FileRegistry
import Mathlib.Algebra.BigOperators.Group.Finset.Basic
import Mathlib.Algebra.Order.BigOperators.Group.Finset

/-!
# Integrity of the bucket chains

A closer keeps `link`, the place from which its wrapper hangs, while it waits
for running operations. The mutex is free during that wait, and the chain may
change in front of the wrapper. The chains stay intact in every run in which
each closer, when it unlinks, still finds its wrapper behind its link; the run
`lostWrapper` shows what happens otherwise.
-/

namespace Asm2Runtime.FileRegistry

open LinkedChain Transition

theorem fileBucket_lt (stream : Addr) : fileBucket stream < fileBuckets :=
  Nat.and_lt_two_pow _ (show fileBuckets - 1 < 2 ^ 10 by decide)

/-! ## Chains of a registry -/

/-- The bucket chains hold exactly the live wrappers, each in its own bucket,
and every other link field is NULL. -/
structure Linked (r : Registry) (live : Addr → Prop) (chain : Nat → List Addr) : Prop where
  chains : ∀ b, Chain r.next (r.activeFiles b) (chain b)
  bucket : ∀ b, ∀ w ∈ chain b, fileBucket w = b
  members : ∀ w, w ∈ chain (fileBucket w) ↔ live w
  dead : ∀ w, ¬ live w → r.next w = none

theorem Linked.congr {r r' : Registry} {live live' : Addr → Prop} {chain : Nat → List Addr}
    (h : Linked r live chain) (hnext : r'.next = r.next) (hheads : r'.activeFiles = r.activeFiles)
    (hlive : ∀ w, live' w ↔ live w) : Linked r' live' chain := by
  refine ⟨?_, h.bucket, ?_, ?_⟩
  · rw [hnext, hheads]; exact h.chains
  · intro w; rw [hlive]; exact h.members w
  · intro w hw; rw [hnext]; exact h.dead w (by rwa [hlive] at hw)

/-- asm2_wrap_file pushes the new wrapper in front of its bucket. -/
theorem Linked.wrapFile {r : Registry} {live : Addr → Prop} {chain : Nat → List Addr} {a : Addr}
    (h : Linked r live chain) (ha : ¬ live a) (host : Host) (mode : Option (List Char)) (fd : Int) :
    Linked (wrapFile r host mode fd a) (fun w => live w ∨ w = a)
      (Function.update chain (fileBucket a) (a :: chain (fileBucket a))) := by
  have hfresh : ∀ b, a ∉ chain b := by
    intro b hb
    have := h.bucket b a hb
    subst b
    exact ha ((h.members a).mp hb)
  refine ⟨?_, ?_, ?_, ?_⟩
  · intro b
    rw [next_wrapFile, activeFiles_wrapFile]
    by_cases hb : b = fileBucket a
    · subst b
      simpa using (h.chains (fileBucket a)).push (hfresh _)
    · simpa [hb] using (h.chains b).update (hfresh b) _
  · intro b w hw
    by_cases hb : b = fileBucket a
    · subst b
      rw [Function.update_self, List.mem_cons] at hw
      rcases hw with rfl | hw
      · rfl
      · exact h.bucket _ w hw
    · exact h.bucket b w (by simpa [hb] using hw)
  · intro w
    by_cases hw : w = a
    · simp [hw]
    · by_cases hb : fileBucket w = fileBucket a
      · have := h.members w
        rw [hb] at this
        simp [hb, hw, this]
      · simp [hb, hw, h.members w]
  · intro w hw
    rw [next_wrapFile, Function.update_of_ne (by rintro rfl; simp at hw)]
    exact h.dead w fun hl => hw (.inl hl)

/-- Whatever a head or a link field leads to is live. -/
theorem Linked.live_of_load {r : Registry} {live : Addr → Prop} {chain : Nat → List Addr}
    {a : Addr} {link : Link Nat Addr} (h : Linked r live chain)
    (hlink : link.load r.activeFiles r.next = some a) : live a := by
  have hmem : ∃ b, a ∈ chain b := by
    cases link with
    | head b =>
      have hch := h.chains b
      rw [show r.activeFiles b = some a from hlink] at hch
      exact ⟨b, hch.head_mem⟩
    | next p =>
      have hpa : r.next p = some a := hlink
      have hp : live p := by
        by_contra hdead
        simp [h.dead p hdead] at hpa
      exact ⟨_, (h.chains _).next_mem ((h.members p).mpr hp) hpa⟩
  obtain ⟨b, hb⟩ := hmem
  have := h.bucket b a hb
  subst b
  exact (h.members a).mp hb

/-- A closer whose link still leads to its wrapper takes exactly it out. -/
theorem Linked.takeFinish {r : Registry} {live : Addr → Prop} {chain : Nat → List Addr} {a : Addr}
    {link : Link Nat Addr} (h : Linked r live chain)
    (hlink : link.load r.activeFiles r.next = some a) :
    Linked (takeFinish r link a) (fun w => live w ∧ w ≠ a)
      (Function.update chain (fileBucket a) ((chain (fileBucket a)).erase a)) := by
  have hnd : ∀ b, (chain b).Nodup := fun b => (h.chains b).nodup
  have hchains : ∀ b, Chain (FileRegistry.takeFinish r link a).next
      ((FileRegistry.takeFinish r link a).activeFiles b)
      (Function.update chain (fileBucket a) ((chain (fileBucket a)).erase a) b) := by
    intro b
    have hother : b ≠ fileBucket a → a ∉ chain b := fun hb hm => hb (h.bucket b a hm).symm
    cases link with
    | head c =>
      have hhead : r.activeFiles c = some a := hlink
      have hc : c = fileBucket a := by
        have hm := h.chains c
        rw [hhead] at hm
        exact (h.bucket c a hm.head_mem).symm
      subst hc
      rw [next_takeFinish_head, activeFiles_takeFinish_head]
      by_cases hb : b = fileBucket a
      · subst b
        have hm := h.chains (fileBucket a)
        rw [hhead] at hm
        obtain ⟨m, hm', hpop⟩ := hm.pop
        rw [hm']
        simpa using hpop
      · simpa [hb] using (h.chains b).update (hother hb) _
    | next p =>
      have hpa : r.next p = some a := hlink
      have hp : live p := by
        by_contra hdead
        simp [h.dead p hdead] at hpa
      have hpm : p ∈ chain (fileBucket p) := (h.members p).mpr hp
      have hbp : fileBucket p = fileBucket a :=
        (h.bucket _ a ((h.chains _).next_mem hpm hpa)).symm
      rw [next_takeFinish_next, activeFiles_takeFinish_next]
      by_cases hb : b = fileBucket a
      · subst b
        rw [hbp] at hpm
        obtain ⟨before, after, hsplit⟩ := List.append_of_mem hpm
        have hch := h.chains (fileBucket a)
        rw [hsplit] at hch
        obtain ⟨q, -, -, hafter⟩ := seg_append.mp hch
        rw [hpa] at hafter
        obtain ⟨m, rfl, -⟩ := Chain.pop hafter
        have hab : a ∉ before ∧ p ≠ a := by
          have hn := hnd (fileBucket a)
          rw [hsplit] at hn
          simp only [List.nodup_append, List.nodup_cons, List.mem_cons] at hn
          exact ⟨fun hm => hn.2.2 a hm a (by simp) rfl, fun he => hn.2.1.1 (by simp [he])⟩
        have herase : (before ++ p :: a :: m).erase a = before ++ p :: m := by
          rw [List.erase_append_right _ hab.1]
          simp [hab.2]
        rw [Function.update_self, hsplit, herase]
        exact Chain.unlink hch
      · have hpb : p ∉ chain b := fun hm => hb ((h.bucket b p hm).symm.trans hbp)
        simpa [hb] using ((h.chains b).update hpb _).update (hother hb) _
  refine ⟨hchains, ?_, ?_, ?_⟩
  · intro b w hw
    by_cases hb : b = fileBucket a
    · subst b
      rw [Function.update_self] at hw
      exact h.bucket _ w (List.mem_of_mem_erase hw)
    · exact h.bucket b w (by simpa [hb] using hw)
  · intro w
    by_cases hb : fileBucket w = fileBucket a
    · have hm := h.members w
      rw [hb] at hm
      rw [hb, Function.update_self, (hnd _).mem_erase_iff, hm]
      exact and_comm
    · have hwa : w ≠ a := by rintro rfl; exact hb rfl
      simp [hb, hwa, h.members w]
  · intro w hw
    by_cases hwa : w = a
    · subst w
      cases link with
      | head c => rw [next_takeFinish_head, Function.update_self]
      | next p => rw [next_takeFinish_next, Function.update_self]
    · have hdead := h.dead w fun hl => hw ⟨hl, hwa⟩
      cases link with
      | head c => rw [next_takeFinish_head, Function.update_of_ne hwa, hdead]
      | next p =>
        have hwp : w ≠ p := by
          rintro rfl
          simp [Link.load, hdead] at hlink
        rw [next_takeFinish_next, Function.update_of_ne hwa, Function.update_of_ne hwp, hdead]

/-! ## Chains of a running system -/

def lengths (chain : Nat → List Addr) : Nat :=
  ∑ b ∈ Finset.range fileBuckets, (chain b).length

theorem lengths_update (chain : Nat → List Addr) {b : Nat} (hb : b < fileBuckets) (l : List Addr) :
    lengths (Function.update chain b l) + (chain b).length = lengths chain + l.length := by
  have hmem : b ∈ Finset.range fileBuckets := Finset.mem_range.mpr hb
  have hnew := Finset.add_sum_erase _ (fun c => (Function.update chain b l c).length) hmem
  have hold := Finset.add_sum_erase _ (fun c => (chain c).length) hmem
  have hrest : ∑ c ∈ (Finset.range fileBuckets).erase b, (Function.update chain b l c).length =
      ∑ c ∈ (Finset.range fileBuckets).erase b, (chain c).length := by
    apply Finset.sum_congr rfl
    intro c hc
    rw [Function.update_of_ne (Finset.ne_of_mem_erase hc)]
  simp only [Function.update_self] at hnew
  unfold lengths
  omega

theorem length_le_lengths (chain : Nat → List Addr) {b : Nat} (hb : b < fileBuckets) :
    (chain b).length ≤ lengths chain :=
  Finset.single_le_sum (f := fun c => (chain c).length) (fun _ _ => Nat.zero_le _)
    (Finset.mem_range.mpr hb)

/-- The close of the wrapper at this address has not completed. -/
def System.Live (s : System) (a : Addr) : Prop :=
  a ∈ s.created ∧ (s.registry.wrapper a).state ≠ .closed

/-- Every wrapper whose close has not completed is met exactly once in its own
bucket, no closed wrapper is met in any bucket, every walk ends without a
repetition, and the three counters agree with the walks. -/
def ChainIntegrity (s : System) : Prop :=
  ∃ chain : Nat → List Addr,
    (∀ b < fileBuckets,
      Chain s.registry.next (s.registry.activeFiles b) (chain b) ∧ (chain b).Nodup) ∧
    (∀ a, s.Live a → (chain (fileBucket a)).count a = 1) ∧
    (∀ a ∈ s.created, (s.registry.wrapper a).state = .closed →
      ∀ b < fileBuckets, a ∉ chain b) ∧
    s.registry.createdCount = s.registry.openCount + s.registry.closedCount ∧
    s.registry.openCount = lengths chain

/-- What the steps keep: the linked chains, the counters, and that each waiting
closer is the only one of a wrapper in state CLOSING. -/
structure Intact (s : System) (chain : Nat → List Addr) : Prop where
  linked : Linked s.registry s.Live chain
  counts : s.registry.createdCount = s.registry.openCount + s.registry.closedCount
  total : s.registry.openCount = lengths chain
  closing : ∀ x ∈ s.waiting,
    x.2.wrapper ∈ s.created ∧ (s.registry.wrapper x.2.wrapper).state = .closing
  distinct : (s.waiting.map fun x => x.2.wrapper).Nodup

theorem Intact.integrity {s : System} {chain : Nat → List Addr} (h : Intact s chain) :
    ChainIntegrity s := by
  have hnd : ∀ b, (chain b).Nodup := fun b => (h.linked.chains b).nodup
  refine ⟨chain, fun b _ => ⟨h.linked.chains b, hnd b⟩, ?_, ?_, h.counts, h.total⟩
  · intro a ha
    exact List.count_eq_one_of_mem (hnd _) ((h.linked.members a).mpr ha)
  · intro a _ hclosed b _ hm
    have hb := h.linked.bucket b a hm
    subst b
    exact ((h.linked.members a).mp hm).2 hclosed

theorem initial_intact (sF : Addr) : Intact (initial sF) fun _ => [] := by
  refine ⟨⟨?_, ?_, ?_, ?_⟩, rfl, ?_, ?_, ?_⟩
  · intro b; rfl
  · simp
  · simp [System.Live, initial]
  · intro w _; rfl
  · simp [initial, lengths]
  · simp [initial]
  · simp [initial]

/-- The states and hosts of the wrappers other than the closed one stay. -/
theorem live_takeFinish {s : System} {link : Link Nat Addr} {a : Addr} (w : Addr) :
    (w ∈ s.created ∧ ((takeFinish s.registry link a).wrapper w).state ≠ .closed) ↔
      s.Live w ∧ w ≠ a := by
  rw [(takeFinish_wrapper s.registry link a w).1]
  by_cases h : w = a <;> simp [h, System.Live]

/-- The close of a wrapper in state CLOSING completes behind a link that leads to it. -/
theorem Intact.finish {s : System} {chain : Nat → List Addr} (h : Intact s chain)
    {link : Link Nat Addr} {a : Addr}
    (hlink : link.load s.registry.activeFiles s.registry.next = some a)
    (hwait : ∀ x ∈ s.waiting, x.2.wrapper ≠ a) (taken : List (Tid × Addr × Host))
    (results : List (Addr × Fclose)) :
    ∃ chain', Intact { s with registry := takeFinish s.registry link a, taken, results } chain' := by
  have hmem : a ∈ chain (fileBucket a) := (h.linked.members a).mpr (h.linked.live_of_load hlink)
  have hlen := lengths_update chain (fileBucket_lt a) ((chain (fileBucket a)).erase a)
  have hpos := List.length_pos_of_mem hmem
  have hle := length_le_lengths chain (fileBucket_lt a)
  have htotal := h.total
  have hcounts := h.counts
  rw [List.length_erase_of_mem hmem] at hlen
  have hopen : (takeFinish s.registry link a).openCount = s.registry.openCount - 1 := by
    have : s.registry.openCount ≠ 0 := by omega
    cases link <;> simp [takeFinish, Registry.store, Registry.setWrapper, this]
  have hcreated : (takeFinish s.registry link a).createdCount = s.registry.createdCount := by
    cases link <;> rfl
  have hclosed : (takeFinish s.registry link a).closedCount = s.registry.closedCount + 1 := by
    cases link <;> rfl
  refine ⟨_, (h.linked.takeFinish hlink).congr rfl rfl fun w => live_takeFinish (s := s) w, ?_, ?_, ?_,
    h.distinct⟩
  · change (takeFinish s.registry link a).createdCount = _
    rw [hcreated, hopen, hclosed]
    omega
  · change (takeFinish s.registry link a).openCount = _
    rw [hopen]
    omega
  · intro x hx
    refine ⟨(h.closing x hx).1, ?_⟩
    change ((takeFinish s.registry link a).wrapper x.2.wrapper).state = .closing
    rw [(takeFinish_wrapper s.registry link a x.2.wrapper).1, if_neg (hwait x hx)]
    exact (h.closing x hx).2

/-- Changes of the registry that keep links, heads, counters and closedness. -/
theorem Intact.frame {s s' : System} {chain : Nat → List Addr} (h : Intact s chain)
    (hnext : s'.registry.next = s.registry.next)
    (hheads : s'.registry.activeFiles = s.registry.activeFiles)
    (hcounts : s'.registry.createdCount = s.registry.createdCount ∧
      s'.registry.openCount = s.registry.openCount ∧
      s'.registry.closedCount = s.registry.closedCount)
    (hcreated : s'.created = s.created)
    (hstate : ∀ a, (s'.registry.wrapper a).state = .closed ↔ (s.registry.wrapper a).state = .closed)
    (hclosing : ∀ x ∈ s'.waiting,
      x.2.wrapper ∈ s'.created ∧ (s'.registry.wrapper x.2.wrapper).state = .closing)
    (hdistinct : (s'.waiting.map fun x => x.2.wrapper).Nodup) : Intact s' chain := by
  refine ⟨h.linked.congr hnext hheads ?_, ?_, ?_, hclosing, hdistinct⟩
  · intro a; simp [System.Live, hcreated, hstate]
  · rw [hcounts.1, hcounts.2.1, hcounts.2.2]; exact h.counts
  · rw [hcounts.2.1]; exact h.total

/-- Counts and flags of a wrapper may change freely. -/
theorem Intact.setWrapper {s : System} {chain : Nat → List Addr} (h : Intact s chain) {a : Addr}
    {w : FileWrapper} (hlink : w.hashNext = s.registry.next a)
    (hstate : w.state = (s.registry.wrapper a).state) (operating : List (Tid × StreamReference)) :
    Intact { s with registry := s.registry.setWrapper a w, operating } chain := by
  have hsame : ∀ x, ((s.registry.setWrapper a w).wrapper x).state =
      (s.registry.wrapper x).state := by
    intro x
    by_cases hx : x = a
    · subst x; simpa using hstate
    · simp [hx]
  refine h.frame (Registry.next_setWrapper_same hlink) rfl ⟨rfl, rfl, rfl⟩ rfl ?_ ?_ h.distinct
  · intro x; rw [hsame]
  · intro x hx
    rw [hsame]
    exact h.closing x hx

/-- When the closer unlinks, its link still leads to its wrapper. -/
def LinkFresh (s : System) : Event → Prop
  | .wake _ w => (s.registry.wrapper w.wrapper).activeOperations = 0 →
      w.link.load s.registry.activeFiles s.registry.next = some w.wrapper
  | _ => True

instance decidableLinkFresh (s : System) : ∀ e, Decidable (LinkFresh s e)
  | .wake _ _ => inferInstanceAs (Decidable (_ → _))
  | .wrapFile _ _ _ _ _ | .acquire _ _ | .release _ _ | .fclose _ _ | .fcloseHost _ _ _ =>
    isTrue trivial

theorem intact_wrapFile {s : System} {chain : Nat → List Addr} (h : Intact s chain) {a : Addr}
    (ha : a ∉ s.created) (host : Host) (mode : Option (List Char)) (fd : Int) :
    ∃ chain', Intact { s with
      registry := wrapFile s.registry host mode fd a
      hosts := host :: s.hosts, created := a :: s.created } chain' := by
  have hlive : ¬ s.Live a := fun hl => ha hl.1
  have hlen := lengths_update chain (fileBucket_lt a) (a :: chain (fileBucket a))
  have htotal := h.total
  have hcounts := h.counts
  rw [List.length_cons] at hlen
  have hother : ∀ w ∈ s.created, (wrapFile s.registry host mode fd a).wrapper w =
      s.registry.wrapper w := by
    intro w hw
    have hwa : w ≠ a := by rintro rfl; exact ha hw
    simp [wrapFile, hwa]
  refine ⟨_, (h.linked.wrapFile hlive host mode fd).congr rfl rfl ?_, ?_, ?_, ?_, h.distinct⟩
  · intro w
    by_cases hw : w = a
    · subst w; simp [System.Live, wrapFile]
    · simp [System.Live, wrapFile, hw]
  · change s.registry.createdCount + 1 = s.registry.openCount + 1 + s.registry.closedCount
    omega
  · change s.registry.openCount + 1 = _
    omega
  · intro x hx
    obtain ⟨hc, hs⟩ := h.closing x hx
    refine ⟨List.mem_cons_of_mem _ hc, ?_⟩
    change ((wrapFile s.registry host mode fd a).wrapper x.2.wrapper).state = .closing
    rw [hother _ hc]
    exact hs

/-- Leave the mutex after a wait loop that started with the wrapper CLOSING. -/
theorem intact_takeLoop {s : System} {chain : Nat → List Addr} (h : Intact s chain) (t : Tid)
    (stream : Addr) {a : Addr} {link : Link Nat Addr} {r : Registry} {take : Take}
    (ha : a ∈ s.created ∧ (s.registry.wrapper a).state = .closing)
    (hwait : ∀ x ∈ s.waiting, x.2.wrapper ≠ a)
    (hlink : (s.registry.wrapper a).activeOperations = 0 →
      link.load s.registry.activeFiles s.registry.next = some a)
    (htake : takeLoop s.registry link a = (r, take)) :
    ∃ chain', Intact (s.afterTake t stream r take) chain' := by
  rcases takeLoop_cases htake with ⟨-, rfl, rfl⟩ | ⟨hactive, rfl, rfl⟩
  · refine ⟨chain, h.frame rfl rfl ⟨rfl, rfl, rfl⟩ rfl (fun _ => Iff.rfl) ?_ ?_⟩
    · intro x hx
      rcases List.mem_cons.mp hx with rfl | hx
      · exact ha
      · exact h.closing x hx
    · refine List.nodup_cons.mpr ⟨?_, h.distinct⟩
      intro hm
      obtain ⟨x, hx, he⟩ := List.mem_map.mp hm
      exact hwait x hx he
  · cases hh : (s.registry.wrapper a).host with
    | none => exact h.finish (hlink hactive) hwait _ _
    | some host => exact h.finish (hlink hactive) hwait _ _

/-- The first section of asm2_take_file_for_close on an open wrapper. -/
theorem intact_fclose {s : System} {chain : Nat → List Addr} (h : Intact s chain) {t : Tid}
    {a : Addr} {link : Link Nat Addr} {r : Registry} {take : Take}
    (hload : link.load s.registry.activeFiles s.registry.next = some a)
    (hopen : (s.registry.wrapper a).state = .opened)
    (hloop : takeLoop (s.registry.setWrapper a { s.registry.wrapper a with state := .closing })
      link a = (r, take)) : ∃ chain', Intact (s.afterTake t a r take) chain' := by
  let r' := s.registry.setWrapper a { s.registry.wrapper a with state := .closing }
  have hnext : r'.next = s.registry.next := Registry.next_setWrapper_same rfl
  have hlive : s.Live a := h.linked.live_of_load hload
  have hwait : ∀ x ∈ s.waiting, x.2.wrapper ≠ a := by
    intro x hx he
    have := (h.closing x hx).2
    rw [he, hopen] at this
    cases this
  have hbase : Intact { s with registry := r' } chain := by
    refine h.frame hnext rfl ⟨rfl, rfl, rfl⟩ rfl ?_ ?_ h.distinct
    · intro x
      by_cases hx : x = a
      · subst x; simp [r', hopen]
      · simp [r', hx]
    · intro x hx
      refine ⟨(h.closing x hx).1, ?_⟩
      simpa [r', hwait x hx] using (h.closing x hx).2
  exact intact_takeLoop hbase t a ⟨hlive.1, by simp [r']⟩ hwait
    (fun _ => by rw [hnext]; exact hload) hloop

theorem step_intact {s s' : System} {e : Event} {chain : Nat → List Addr} (h : Intact s chain)
    (hfresh : LinkFresh s e) (hstep : step s e = some s') : ∃ chain', Intact s' chain' := by
  cases step_effect hstep with
  | notOpened | refused | closeStandard => exact ⟨chain, h⟩
  | notWrapped | standard | releasedIdle | closeRefused | fclosed =>
    exact ⟨chain, h.frame rfl rfl ⟨rfl, rfl, rfl⟩ rfl (fun _ => Iff.rfl) h.closing h.distinct⟩
  | wrapped _ ha => exact intact_wrapFile h ha.2.1 _ _ _
  | acquired | released => exact ⟨chain, h.setWrapper (by rfl) (by rfl) _⟩
  | closing hload hopen hloop => exact intact_fclose h hload hopen hloop
  | @woken t w r take hmem hloop =>
    have hperm := List.perm_cons_erase hmem
    have hdistinct := (hperm.map fun x => x.2.wrapper).nodup_iff.mp h.distinct
    rw [List.map_cons, List.nodup_cons] at hdistinct
    have hbase : Intact { s with waiting := s.waiting.erase (t, w) } chain :=
      h.frame rfl rfl ⟨rfl, rfl, rfl⟩ rfl (fun _ => Iff.rfl)
        (fun x hx => h.closing x (List.mem_of_mem_erase hx)) hdistinct.2
    refine intact_takeLoop hbase t w.wrapper (h.closing (t, w) hmem) ?_ hfresh hloop
    intro x hx he
    exact hdistinct.1 (List.mem_map.mpr ⟨x, hx, he⟩)

/-! ## A link that went stale -/

/-- Walking a bucket after the close, up to the first node that the close wrote to. -/
theorem chain_before {next next' : Addr → Option Addr} {p : Option Addr} {before after l : List Addr}
    {a : Addr} (h : Chain next p (before ++ a :: after)) (hsame : ∀ x ∈ before, next' x = next x)
    (h' : Chain next' p l) : ∃ m, l = before ++ a :: m ∧ Chain next' (next' a) m := by
  obtain ⟨q, hq, rfl, -⟩ := seg_append.mp h
  induction before generalizing p l with
  | nil =>
    cases l with
    | nil => exact absurd (hq.symm.trans h') (by simp)
    | cons b m =>
      obtain rfl : a = b := by simpa using hq.symm.trans h'.1
      exact ⟨m, rfl, h'.2⟩
  | cons c before ih =>
    cases l with
    | nil => exact absurd (hq.1.symm.trans h') (by simp)
    | cons b m =>
      obtain rfl : c = b := by simpa using hq.1.symm.trans h'.1
      have hc := hsame c (by simp)
      have htail : Chain next (next c) (before ++ a :: after) := h.2
      obtain ⟨m', rfl, hm'⟩ := ih htail (fun x hx => hsame x (by simp [hx]))
        (by rw [← hc]; exact h'.2) hq.2
      exact ⟨m', rfl, hm'⟩

/-- A closer whose link no longer leads to its wrapper leaves the wrapper in its
chain, or cuts off an open one. -/
theorem stale_breaks {s : System} {chain : Nat → List Addr} (h : Intact s chain) {a : Addr}
    {link : Link Nat Addr} (ha : s.Live a)
    (hstale : link.load s.registry.activeFiles s.registry.next ≠ some a) {s' : System}
    (hr : s'.registry = takeFinish s.registry link a) (hc : s'.created = s.created) :
    ¬ ChainIntegrity s' := by
  rintro ⟨chain', hchains, hlive, hclosed, -, -⟩
  have hb := fileBucket_lt a
  have hnew := (hchains _ hb).1
  have hnd := (h.linked.chains (fileBucket a)).nodup
  obtain ⟨before, after, hsplit⟩ := List.append_of_mem ((h.linked.members a).mpr ha)
  have hold := h.linked.chains (fileBucket a)
  rw [hsplit] at hnd hold
  obtain ⟨q, hq, rfl, hafter⟩ := seg_append.mp hold
  simp only [List.nodup_append, List.nodup_cons, List.mem_cons] at hnd
  have habefore : a ∉ before := fun hm => hnd.2.2 a hm a (by simp) rfl
  have hgone : a ∉ chain' (fileBucket a) := by
    refine hclosed a (hc ▸ ha.1) ?_ _ hb
    rw [hr, (takeFinish_wrapper _ _ _ _).1, if_pos rfl]
  -- a wrapper of the old chain other than `a` is still live, so it is in the new one
  have hkept : ∀ x ∈ before, x ∈ chain' (fileBucket a) := by
    intro x hx
    have hxa : x ≠ a := by rintro rfl; exact habefore hx
    have hxm : x ∈ chain (fileBucket a) := by rw [hsplit]; simp [hx]
    have hbx := h.linked.bucket _ x hxm
    have hxl := (h.linked.members x).mp (by rw [hbx]; exact hxm)
    have hcount := hlive x ⟨hc ▸ hxl.1, by
      rw [hr, (takeFinish_wrapper _ _ _ _).1, if_neg hxa]; exact hxl.2⟩
    rw [hbx] at hcount
    exact List.count_pos_iff.mp (by omega)
  rw [hr] at hnew
  cases link with
  | head b =>
    rw [next_takeFinish_head, activeFiles_takeFinish_head] at hnew
    have hafter' := hafter.update hnd.2.1.1 none
    by_cases hbb : b = fileBucket a
    · subst b
      rw [Function.update_self] at hnew
      have hres := Chain.unique hnew hafter'
      cases before with
      | nil => exact hstale hq
      | cons x before =>
        have hx := hkept x (by simp)
        rw [hres] at hx
        exact hnd.2.2 x (by simp) x (by simp [hx]) rfl
    · rw [Function.update_of_ne (Ne.symm hbb)] at hnew
      obtain ⟨m, hm, -⟩ := chain_before hold
        (fun x hx => Function.update_of_ne (by rintro rfl; exact habefore hx) _ _) hnew
      exact hgone (by simp [hm])
  | next p =>
    rw [next_takeFinish_next, activeFiles_takeFinish_next] at hnew
    by_cases hp : p ∈ before
    · obtain ⟨first, rest, rfl⟩ := List.append_of_mem hp
      have hpa : p ≠ a := by rintro rfl; exact habefore hp
      have hpafter : p ∉ after := fun hm => hnd.2.2 p hp p (by simp [hm]) rfl
      have hfirst : ∀ x ∈ first, x ≠ p ∧ x ≠ a := by
        intro x hx
        constructor
        · rintro rfl
          exact (List.nodup_append.mp hnd.1).2.2 x hx x (by simp) rfl
        · rintro rfl
          exact habefore (by simp [hx])
      rw [List.append_assoc, List.cons_append] at hold
      obtain ⟨m, hm, htail⟩ := chain_before hold
        (fun x hx => by rw [Function.update_of_ne (hfirst x hx).2,
          Function.update_of_ne (hfirst x hx).1]) hnew
      rw [Function.update_of_ne hpa, Function.update_self] at htail
      have hres := Chain.unique htail ((hafter.update hpafter _).update hnd.2.1.1 none)
      subst m
      -- the node after `p` was in front of `a`, and the new chain jumps over it
      cases rest with
      | nil =>
        obtain ⟨r, -, -, hpnext⟩ := seg_append.mp hold
        exact hstale hpnext.1
      | cons y rest =>
        have hy := hkept y (by simp)
        rw [hm] at hy
        have hyb : y ∉ first ∧ y ≠ p := by
          have hn := hnd.1
          simp only [List.nodup_append, List.nodup_cons, List.mem_cons] at hn
          exact ⟨fun hx => hn.2.2 y hx y (by simp) rfl, fun he => hn.2.1.1 (by simp [he])⟩
        have hyafter : y ∉ after := fun hx => hnd.2.2 y (by simp) y (by simp [hx]) rfl
        simp [hyb, hyafter] at hy
    · obtain ⟨m, hm, -⟩ := chain_before hold
        (fun x hx => by
          rw [Function.update_of_ne (by rintro rfl; exact habefore hx),
            Function.update_of_ne (by rintro rfl; exact hp hx)]) hnew
      exact hgone (by simp [hm])

theorem step_stale {s s' : System} {e : Event} {chain : Nat → List Addr} (h : Intact s chain)
    (hstale : ¬ LinkFresh s e) (hstep : step s e = some s') : ¬ ChainIntegrity s' := by
  cases e with
  | wake t w =>
    simp only [LinkFresh, Classical.not_imp] at hstale
    simp only [step, Option.ite_none_right_eq_some, Option.some.injEq] at hstep
    obtain ⟨hmem, rfl⟩ := hstep
    obtain ⟨hc, hclosing⟩ := h.closing (t, w) hmem
    have hlive : s.Live w.wrapper := ⟨hc, by simp [hclosing]⟩
    rw [show takeLoop s.registry w.link w.wrapper = (takeFinish s.registry w.link w.wrapper,
      .taken w.wrapper (s.registry.wrapper w.wrapper).host) by simp [takeLoop, hstale.1]]
    cases (s.registry.wrapper w.wrapper).host with
    | none => exact stale_breaks h hlive hstale.2 rfl rfl
    | some host => exact stale_breaks h hlive hstale.2 rfl rfl
  | wrapFile | acquire | release | fclose | fcloseHost => exact absurd trivial hstale

/-- In every run the chains are intact at every moment exactly when each closer
that ends its wait finds its wrapper still behind the link it kept. -/
theorem chain_integrity_iff (sF : Addr) (es : List Event) (s : System)
    (hrun : run step (initial sF) es = some s) :
    Always step ChainIntegrity (initial sF) es ↔ Along step LinkFresh (initial sF) es :=
  always_iff_along (P := fun s => ∃ chain, Intact s chain)
    (fun _ ⟨_, h⟩ => h.integrity)
    (fun _ _ _ ⟨_, h⟩ hok hstep => step_intact h hok hstep)
    (fun _ _ _ ⟨_, h⟩ hok hstep => step_stale h hok hstep)
    ⟨_, initial_intact sF⟩ hrun

/-- Two streams share bucket 257. Thread 3 closes the first while thread 2 reads
from it, and thread 4 opens the second during the wait. -/
def lostWrapper : List Event :=
  [.wrapFile 1 (some (.opened 0)) (some ['r']) 3 (some 0x10000),
   .acquire 2 0x10000,
   .fclose 3 0x10000,
   .wrapFile 4 (some (.opened 1)) (some ['r']) 4 (some 0x11010),
   .release 2 ⟨some (.opened 0), some 0x10000⟩,
   .wake 3 ⟨.head 257, 0x10000⟩]

theorem lostWrapper_breaks_chain :
    ∃ s, run step (initial 0x8000) lostWrapper = some s ∧ ¬ ChainIntegrity s := by
  have hlost : ∃ s, run step (initial 0x8000) lostWrapper = some s ∧
      s.registry.activeFiles 257 = none ∧ 0x11010 ∈ s.created ∧
      (s.registry.wrapper 0x11010).state = .opened :=
    ⟨_, rfl, by decide, by decide, by decide⟩
  obtain ⟨s, hrun, hempty, hcreated, hopen⟩ := hlost
  refine ⟨s, hrun, ?_⟩
  rintro ⟨chain, hchains, hlive, -, -, -⟩
  have hchain := (hchains 257 (by decide)).1
  rw [hempty] at hchain
  have hnil : chain 257 = [] := hchain.unique rfl
  have hcount := hlive 0x11010 ⟨hcreated, by simp [hopen]⟩
  rw [show fileBucket 0x11010 = 257 by decide, hnil] at hcount
  simp at hcount

theorem chain_integrity_iff_plain :
    Always step ChainIntegrity (initial 0x8000) (lostWrapper.take 5) ↔
      Along step LinkFresh (initial 0x8000) (lostWrapper.take 5) :=
  chain_integrity_iff 0x8000 (lostWrapper.take 5) _ rfl

end Asm2Runtime.FileRegistry
