import Mikage.Memory.PageTableProof
import Mikage.OS.BufferPages
import Mikage.OS.MessageFrame

/-!
# Mapped buffers from the request to the reply

A request maps the buffers of a message into the server, and the reply unmaps the pages around the
addresses that the server got. The two agree on the pages where the first free addresses start at a
page, and the bytes are the client's where no mapping of it ends within a page.

- `BuffersReturned`: what mapped buffers are for. `AllWhole`: where they are mapped page by page.
- `Holding`: the invariant of the buffers that are mapped. A reply takes them away in any order.
- `translateParams_steps`: the loop over the descriptors, buffer by buffer.
-/

namespace Mikage.IPC

open TranslationDescriptor

variable {Object : Type}

section

variable (other : System Maps Object) (reads : VAddr → Except Exception (BitVec 8))

/-- The request translates the buffer, from the client's and the server's map. -/
def requestStep (b : Buffer) (t t' : Maps) : Prop :=
  ∃ s s' : Message Maps, s.tls .source s.tlsOffset = b.addr ∧ s.system = t ∧
    translateMapBuffer (mapSystem other reads) false b.descriptor s = .ok () s' ∧
    s'.system = t' ∧ (b.size ≠ 0 → s'.tls .dest s.tlsOffset = b.delivered)

/-- The reply translates it, from the server's and the client's map, with the address the server
got. -/
def replyStep (b : Buffer) (t t' : Maps) : Prop :=
  ∃ s s' : Message Maps, s.tls .source s.tlsOffset = b.delivered ∧ s.system = t ∧
    translateMapBuffer (mapSystem other reads) true b.descriptor s = .ok () s' ∧ s'.system = t'

end

/-- Steps for buffers one after the other. -/
inductive Steps (step : Buffer → Maps → Maps → Prop) : List Buffer → Maps → Maps → Prop where
  | nil {t : Maps} : Steps step [] t t
  | cons {b : Buffer} {l : List Buffer} {t t₁ t' : Maps} : step b t t₁ → Steps step l t₁ t' →
      Steps step (b :: l) t t'

/-- The first free addresses are below the top of the address space and start at a page, and no
mapping of the client ends within one of the pages of the buffer. -/
structure MapsWhole (descriptor : TranslationDescriptor) (addr : VAddr) (t : Maps) : Prop where
  room : Roomy t.dest (mappedSize addr descriptor.mapBufferSize) 0x10000000 0x20000000
  aligned : ∀ a, findAvailableVirtualMemory t.dest (mappedSize addr descriptor.mapBufferSize)
    0x10000000 0x20000000 = some a → 4096 ∣ a.toNat
  chunks : WholePages t.source (pageOf addr) (mappedSize addr descriptor.mapBufferSize).toNat

/-- Each buffer is mapped page by page, in the maps that the buffers before it leave. -/
def AllWhole (other : System Maps Object) (reads : VAddr → Except Exception (BitVec 8)) :
    List (TranslationDescriptor × VAddr) → Maps → Prop
  | [], _ => True
  | (descriptor, addr) :: l, t => (descriptor.mapBufferSize ≠ 0 → MapsWhole descriptor addr t) ∧
    ∀ delivered t', requestStep other reads ⟨descriptor, addr, delivered⟩ t t' →
      AllWhole other reads l t'

/-! ## The buffers of a message -/

/-- The mapped buffers among the parameters from an offset on, with the offsets of their
addresses. -/
def mapParams (word : ℕ → BitVec 32) (stop : ℕ) : (words offset : ℕ) →
    List (TranslationDescriptor × ℕ)
  | 0, _ => []
  | words + 1, offset =>
    if offset < stop then
      let rest := mapParams word stop words (offset + 4 * (1 + IPC.numParams ⟨word offset⟩))
      if IsMapBuffer ⟨word offset⟩ then (⟨word offset⟩, offset + 4) :: rest else rest
    else []

/-- The mapped buffers of a message. -/
def messageParams (word : ℕ → BitVec 32) : List (TranslationDescriptor × ℕ) :=
  let header : CommandHeader := ⟨word 0x80⟩
  mapParams word header.commandEnd header.sizeTranslateParams (0x84 + 4 * header.numNormalParams)

/-- Their descriptors, with the addresses that `word'` has for them. -/
def mappedAt (word word' : ℕ → BitVec 32) : List (TranslationDescriptor × VAddr) :=
  (messageParams word).map fun p => (p.1, word' p.2)

/-- The buffers of a request, from its words and those that the server gets. -/
def requestBuffers (word word' : ℕ → BitVec 32) : List Buffer :=
  (messageParams word).map fun p => ⟨p.1, word p.2, word' p.2⟩

/-- **What mapped buffers are for**: while the server handles the request, it has the client's bytes
in the pages of each buffer, and after the reply both have the memory they had before. `mapped` is
the server's memory in between. -/
structure BuffersReturned (l : List Buffer) (client server mapped client' server' : VirtualMemory) :
    Prop where
  shared : ∀ b ∈ l, b.size ≠ 0 → ∀ k < b.pages.toNat, ∃ p,
    resolveVirtualAddr mapped (b.start + BitVec.ofNat 32 k) = some p ∧
      resolveVirtualAddr client (pageOf b.addr + BitVec.ofNat 32 k) = some p
  restored : ∀ a, resolve server' a = resolve server a
  client : client' = client

/-! ## Buffers that are mapped -/

/-- A buffer that has been mapped. -/
structure Placed (b : Buffer) (client server server' : VirtualMemory) : Prop where
  delivered : b.delivered = b.start + (b.addr &&& 0xfff)
  fits : b.start.toNat + b.pages.toNat < 2 ^ 32
  aligned : 4096 ∣ b.start.toNat
  image : Image client server (pageOf b.addr) b.start b.pages.toNat server'

/-- The buffers of `l` are mapped in `server'`, apart from each other and where `server` maps
nothing, and else nothing is changed. Around the addresses that were delivered, the reply finds the
pages that are mapped. -/
structure Holding (server : VirtualMemory) (l : List Buffer) (server' : VirtualMemory) : Prop where
  disjoint : Disjoint server'
  frame : ∀ a, (∀ b ∈ l, ¬ b.Covers a) → resolve server' a = resolve server a
  mapped : ∀ b ∈ l, ∀ a, b.Covers a → resolve server' a ≠ none ∧ resolve server a = none
  apart : l.Pairwise fun b b' => ∀ a, b.Covers a → ¬ b'.Covers a
  returns : ∀ b ∈ l, b.size ≠ 0 → b.start.toNat + b.pages.toNat < 2 ^ 32 ∧
    pageOf b.delivered = b.start ∧ mappedSize b.delivered b.size = b.pages

section

variable {other : System Maps Object} {reads : VAddr → Except Exception (BitVec 8)} {b : Buffer}
  {client server server' server'' : VirtualMemory} {l l' : List Buffer} {t t' u : Maps}

theorem Buffer.exists_of_covers {a : VAddr} (h : b.Covers a) :
    ∃ k < b.pages.toNat, a = b.start + BitVec.ofNat 32 k := by
  obtain ⟨-, h₁, h₂⟩ := h
  refine ⟨a.toNat - b.start.toNat, by omega, BitVec.eq_of_toNat_eq ?_⟩
  have := a.isLt
  rw [BitVec.toNat_add, BitVec.toNat_ofNat]
  omega

namespace Placed

/-- The delivered address leads back to the pages. -/
theorem returns (h : Placed b client server server') (hs : b.size ≠ 0) :
    pageOf b.delivered = b.start ∧ mappedSize b.delivered b.size = b.pages := by
  have hfits := h.fits
  have hoffset : (b.addr &&& 0xfff).toNat = b.addr.toNat % 4096 := toNat_and_fff b.addr
  have hpages := b.toNat_pages
  have hsize : b.size.toNat ≠ 0 := fun hzero => hs (BitVec.eq_of_toNat_eq hzero)
  obtain ⟨n, hn⟩ := h.aligned
  have hdelivered : b.delivered.toNat = b.start.toNat + b.addr.toNat % 4096 := by
    have hsum := congrArg BitVec.toNat h.delivered
    rw [BitVec.toNat_add, hoffset] at hsum
    omega
  constructor
  · refine BitVec.eq_of_toNat_eq ?_
    rw [toNat_pageOf]
    omega
  · refine BitVec.eq_of_toNat_eq ?_
    rw [toNat_mappedSize b.size_lt, hpages, hdelivered]
    congr 4
    omega

theorem mapped (h : Placed b client server server') {a : VAddr} (ha : b.Covers a) :
    resolve server' a ≠ none ∧ resolve server a = none := by
  obtain ⟨k, hk, rfl⟩ := Buffer.exists_of_covers ha
  refine ⟨fun hnone => ?_, h.image.fresh k hk⟩
  obtain ⟨p, hp, -⟩ := h.image.shared k hk
  rw [resolveVirtualAddr_eq, hnone] at hp
  cases hp

end Placed

/-- One more buffer in front. -/
theorem Holding.cons (h : Holding server' l server'') (hs : b.size ≠ 0)
    (hb : Placed b client server server') : Holding server (b :: l) server'' := by
  have hapart {a : VAddr} (ha : b.Covers a) (b') (hb' : b' ∈ l) : ¬ b'.Covers a := fun hcovers =>
    (hb.mapped ha).1 (h.mapped b' hb' a hcovers).2
  have hframe {a : VAddr} (ha : ¬ b.Covers a) : resolve server' a = resolve server a :=
    hb.image.frame a fun hin => ha ⟨hs, hin⟩
  refine ⟨h.disjoint, fun a ha => ?_, ?_, ?_, ?_⟩
  · obtain ⟨ha, hl⟩ := List.forall_mem_cons.1 ha
    rw [h.frame a hl, hframe ha]
  · refine List.forall_mem_cons.2 ⟨fun a ha => ?_, fun b' hb' a ha => ?_⟩
    · rw [h.frame a (hapart ha)]
      exact hb.mapped ha
    · obtain ⟨hsome, hnone⟩ := h.mapped b' hb' a ha
      exact ⟨hsome, by rwa [← hframe fun hcovers => hapart hcovers b' hb' ha]⟩
  · exact List.pairwise_cons.2 ⟨fun b' hb' a ha => hapart ha b' hb', h.apart⟩
  · exact List.forall_mem_cons.2 ⟨fun _ => ⟨hb.fits, hb.returns hs⟩, h.returns⟩

theorem Holding.cons_zero (h : Holding server l server') (hs : b.size = 0) :
    Holding server (b :: l) server' := by
  have hnot (a : VAddr) : ¬ b.Covers a := fun h => h.1 hs
  refine ⟨h.disjoint, fun a ha => h.frame a (List.forall_mem_cons.1 ha).2, ?_, ?_, ?_⟩
  · exact List.forall_mem_cons.2 ⟨fun a ha => absurd ha (hnot a), h.mapped⟩
  · exact List.pairwise_cons.2 ⟨fun _ _ a ha => absurd ha (hnot a), h.apart⟩
  · exact List.forall_mem_cons.2 ⟨fun h => absurd hs h, h.returns⟩

theorem Holding.perm (h : Holding server l server') (hl : l'.Perm l) :
    Holding server l' server' where
  disjoint := h.disjoint
  frame a ha := h.frame a fun b hb => ha b (hl.mem_iff.2 hb)
  mapped b hb := h.mapped b (hl.mem_iff.1 hb)
  apart := hl.symm.pairwise h.apart fun hab a ha hb => hab a hb ha
  returns b hb := h.returns b (hl.mem_iff.1 hb)

/-! ## The request and the reply -/

theorem MapsWhole.fits {dest : VAddr} (h : MapsWhole b.descriptor b.addr t)
    (hserver : Disjoint t.dest) (hs : b.size ≠ 0)
    (hfind : findAvailableVirtualMemory t.dest b.pages 0x10000000 0x20000000 = some dest) :
    dest.toNat + b.pages.toNat < 2 ^ 32 := by
  have hstart : (0x10000000 : VAddr).toNat + b.pages.toNat < 2 ^ 32 := by
    have := b.toNat_pages
    have := b.size_lt
    show 0x10000000 + _ < _
    omega
  have hexact : FindExact t.dest b.pages 0x10000000 0x20000000 :=
    (findExact_iff hserver.intervals (Buffer.pages_ne_zero hs) hstart).2 h.room
  exact Nat.lt_of_le_of_lt ((hexact.1 dest).1 hfind).1.limit (by decide)

theorem requestStep.placed (h : requestStep other reads b t t') (hs : b.size ≠ 0)
    (hclient : Disjoint t.source) (hserver : Disjoint t.dest)
    (hwhole : MapsWhole b.descriptor b.addr t) :
    t'.source = t.source ∧ Placed b t.source t.dest t'.dest := by
  obtain ⟨s, s', haddr, rfl, hrun, rfl, hdelivered⟩ := h
  have hends : Ends (translateMapBuffer (mapSystem other reads) false b.descriptor) s _ _ :=
    request_ends (P := fun dest t' => t'.source = s.system.source ∧
      Image s.system.source s.system.dest (pageOf b.addr) dest b.pages.toNat t'.dest)
    (E := fun _ _ => True) haddr hs (fun _ _ _ => trivial) (fun dest hfind s₁ h₁ => by
      have hfit := hwhole.fits hserver hs hfind
      rw [← h₁] at hclient hserver hwhole ⊢
      exact mapChunks_ends hclient hwhole.chunks hfit (Nat.zero_le _) (fun _ => Nat.dvd_zero _)
        (Image.zero hserver)) fun _ _ _ => trivial
  obtain ⟨dest, hfind, ⟨hsource, himage⟩, htls⟩ := hends.ok hrun
  have hdelivered : b.delivered = dest + (b.addr &&& 0xfff) := (hdelivered hs).symm.trans htls
  have hstart : b.start = dest := Buffer.start_eq hdelivered
  refine ⟨hsource, ?_⟩
  rw [← hstart] at hdelivered himage hfind
  exact ⟨hdelivered, hwhole.fits hserver hs hfind, hwhole.aligned _ hfind, himage⟩

theorem requestStep.eq_of_zero (h : requestStep other reads b t t') (hs : b.size = 0) : t' = t := by
  obtain ⟨s, s', -, rfl, hrun, rfl, -⟩ := h
  exact (translateMapBuffer_zero hs).ok hrun

/-- A whole request. -/
theorem Steps.request (h : Steps (fun b t t' => (b.size ≠ 0 → MapsWhole b.descriptor b.addr t) ∧
      requestStep other reads b t t') l t t') (hclient : Disjoint t.source)
    (hserver : Disjoint t.dest) : t'.source = t.source ∧ Holding t.dest l t'.dest ∧
      ∀ b ∈ l, b.size ≠ 0 → ∀ k < b.pages.toNat, ∃ p,
        resolveVirtualAddr t'.dest (b.start + BitVec.ofNat 32 k) = some p ∧
          resolveVirtualAddr t.source (pageOf b.addr + BitVec.ofNat 32 k) = some p := by
  induction h with
  | nil => exact ⟨rfl, ⟨hserver, fun _ _ => rfl, nofun, .nil, nofun⟩, nofun⟩
  | @cons b l t t₁ t' hstep _ ih =>
    obtain ⟨hwhole, hstep⟩ := hstep
    by_cases hs : b.size = 0
    · obtain rfl := hstep.eq_of_zero hs
      obtain ⟨hsource, hholding, hshared⟩ := ih hclient hserver
      exact ⟨hsource, hholding.cons_zero hs,
        List.forall_mem_cons.2 ⟨fun h => absurd hs h, hshared⟩⟩
    · obtain ⟨hsource₁, hplaced⟩ := hstep.placed hs hclient hserver (hwhole hs)
      obtain ⟨hsource, hholding, hshared⟩ := ih (hsource₁ ▸ hclient) hplaced.image.disjoint
      rw [hsource₁] at hsource hshared
      refine ⟨hsource, hholding.cons hs hplaced, List.forall_mem_cons.2 ⟨fun _ k hk => ?_, hshared⟩⟩
      obtain ⟨p, hp, hclient'⟩ := hplaced.image.shared k hk
      have hcovers : b.Covers (b.start + BitVec.ofNat 32 k) := by
        have hfits := hplaced.fits
        refine ⟨hs, ?_⟩
        rw [BitVec.toNat_add, BitVec.toNat_ofNat]
        omega
      refine ⟨p, ?_, hclient'⟩
      rw [← hp, resolveVirtualAddr_eq, resolveVirtualAddr_eq, hholding.frame]
      exact fun b' hb' h' => (hplaced.mapped hcovers).1 (hholding.mapped b' hb' _ h').2

/-- The reply for the first buffer. -/
theorem Holding.reply_ends {s : Message Maps} (h : Holding server (b :: l) s.system.source)
    (haddr : s.tls .source s.tlsOffset = b.delivered) :
    Ends (translateMapBuffer (mapSystem other reads) true b.descriptor) s
      (fun _ s' => s'.system.dest = s.system.dest ∧ Holding server l s'.system.source)
      fun e _ => ReadFault reads e := by
  obtain ⟨hapart, hapart'⟩ := List.pairwise_cons.1 h.apart
  obtain ⟨hreturns, hreturns'⟩ := List.forall_mem_cons.1 h.returns
  obtain ⟨hmapped, hmapped'⟩ := List.forall_mem_cons.1 h.mapped
  by_cases hs : b.size = 0
  · refine (translateMapBuffer_zero hs).mono (fun _ s' h' => ?_) fun _ _ h => h
    rw [h']
    refine ⟨rfl, h.disjoint, fun a ha => ?_, hmapped', hapart', hreturns'⟩
    exact h.frame a (List.forall_mem_cons.2 ⟨fun hcovers => hcovers.1 hs, ha⟩)
  · obtain ⟨hfits, hpage, hsize⟩ := hreturns hs
    obtain ⟨hok, hremoved⟩ := unmap_of_mapped h.disjoint (Buffer.pages_ne_zero hs) hfits
      fun a h₁ h₂ => (hmapped a ⟨hs, h₁, h₂⟩).1
    have hgone (a : VAddr) : resolve (unmapVirtualMemory s.system.source b.start b.pages).memory a =
        if b.Covers a then none else resolve s.system.source a := by
      rw [hremoved a]
      exact if_congr ⟨fun hin => ⟨hs, hin⟩, fun hin => hin.2⟩ rfl rfl
    rw [← hsize, ← hpage] at hok
    refine (IPC.reply_ends haddr hs hok).mono (fun _ s' h' => ⟨h'.1, ?_⟩) fun _ _ h => h
    rw [h'.2, hsize, hpage]
    refine ⟨h.disjoint.unmap, fun a ha => ?_, fun b' hb' a ha => ?_, hapart', hreturns'⟩
    · rw [hgone]
      split
      next hcovers => exact (hmapped a hcovers).2.symm
      next hcovers => exact h.frame a (List.forall_mem_cons.2 ⟨hcovers, ha⟩)
    · rw [hgone, if_neg fun hcovers => hapart b' hb' a hcovers ha]
      exact hmapped' b' hb' a ha

/-- A whole reply. -/
theorem Steps.reply (h : Steps (replyStep other reads) l t u)
    (hholding : Holding server l t.source) : u.dest = t.dest ∧ Holding server [] u.source := by
  induction h with
  | nil => exact ⟨rfl, hholding⟩
  | cons hstep _ ih =>
    obtain ⟨s, s', haddr, rfl, hrun, rfl⟩ := hstep
    obtain ⟨hdest, hholding⟩ := (hholding.reply_ends haddr).ok hrun
    obtain ⟨hdest', hholding⟩ := ih hholding
    exact ⟨hdest'.trans hdest, hholding⟩

/-- A reply comes to its end where the memory can be read. -/
theorem Holding.exists_reply (hreads : ∀ addr, ∃ byte, reads addr = .ok byte)
    (h : Holding server l t.source) : ∃ u, Steps (replyStep other reads) l t u := by
  induction l generalizing t with
  | nil => exact ⟨t, .nil⟩
  | cons b l ih =>
    let s : Message Maps := ⟨fun _ _ => b.delivered, 0, 0, [], t⟩
    have hends : Ends (translateMapBuffer (mapSystem other reads) true b.descriptor) s _ _ :=
      h.reply_ends rfl
    cases hrun : translateMapBuffer (mapSystem other reads) true b.descriptor s with
    | ok v s' =>
      obtain ⟨u, hu⟩ := ih (hends.ok hrun).2
      exact ⟨u, .cons ⟨s, s', rfl, rfl, hrun, rfl⟩ hu⟩
    | error e s' =>
      obtain ⟨addr, he⟩ := hends.error hrun
      obtain ⟨byte, hbyte⟩ := hreads addr
      rw [hbyte] at he
      cases he

/-- The loop over the descriptors takes the mapped buffers one after the other. -/
theorem translateParams_steps {isReply : Bool} {stop words : ℕ} {s s' : Message Maps}
    {step : Buffer → Maps → Maps → Prop} {R : Buffer → TranslationDescriptor × ℕ → Prop}
    (hquiet : ∀ t, Quiet (mapSystem other reads) (· = t))
    (h : translateParams (mapSystem other reads) isReply stop words s = .ok () s')
    (hstep : ∀ b p s₁ s₂, R b p → s₁.tls .source = s.tls .source → s₁.tlsOffset = p.2 →
      translateMapBuffer (mapSystem other reads) isReply p.1 s₁ = .ok () s₂ →
      s'.tls .dest p.2 = s₂.tls .dest p.2 → step b s₁.system s₂.system)
    (hl : List.Forall₂ R l (mapParams (s.tls .source) stop words s.tlsOffset)) :
    Steps step l s.system s'.system := by
  induction words generalizing s l with
  | zero =>
    cases h
    cases hl
    exact .nil
  | succ words ih =>
    unfold mapParams at hl
    by_cases hlt : s.tlsOffset < stop
    · obtain ⟨s₁, s₂, hsystem, hsource₁, hoffset₁, -, hrun, hsource, hoffset, h⟩ :=
        translateParams_round hlt h
      rw [← hsource] at hrun hoffset
      rw [if_pos hlt, ← hsource, ← hoffset] at hl
      have hrest {l : List Buffer} := ih (s := s₂) (l := l) h fun b p s₃ s₄ hb h₃ =>
        hstep b p s₃ s₄ hb (h₃.trans hsource)
      by_cases hd : IsMapBuffer ⟨s₂.tls .source s.tlsOffset⟩
      · simp only [if_pos hd] at hl
        cases hl with
        | @cons b _ l _ hb hl =>
          have hkept : Behind s₂.tlsOffset (fun _ => True) (s₂.tls .dest) s' :=
            translateParams_behind ⟨Nat.le_refl _, trivial, fun _ _ => rfl⟩ h
          rw [hd.translate] at hrun
          rw [← hsystem]
          refine .cons (hstep b _ s₁ s₂ hb hsource₁ hoffset₁ hrun (hkept.words _ ?_)) (hrest hl)
          show s.tlsOffset + 4 < _
          rw [hoffset, hd.numParams]
          omega
      · simp only [if_neg hd] at hl
        have hbehind : Behind 0 (· = s.system) (s₁.tls .dest) s₁ :=
          ⟨Nat.zero_le _, hsystem, fun _ _ => rfl⟩
        have hquiet : Ends (translateDescriptor (mapSystem other reads) isReply _) s₁ _ _ :=
          translateDescriptor_quiet (hquiet s.system) hd hbehind (by omega)
        rw [← (hquiet.ok hrun).system]
        exact hrest hl
    · rw [if_neg hlt] at hl
      cases hl
      simp only [translateParams] at h
      obtain ⟨_, _, hoffset, h⟩ := EStateM.bind_eq_ok_iff.1 h
      cases hoffset
      rw [if_neg hlt] at h
      cases h
      exact .nil

theorem AllWhole.steps {word word' : ℕ → BitVec 32} {params : List (TranslationDescriptor × ℕ)}
    (h : AllWhole other reads (params.map fun p => (p.1, word p.2)) t)
    (hsteps : Steps (requestStep other reads)
      (params.map fun p => ⟨p.1, word p.2, word' p.2⟩) t t') :
    Steps (fun b t t' => (b.size ≠ 0 → MapsWhole b.descriptor b.addr t) ∧
      requestStep other reads b t t') (params.map fun p => ⟨p.1, word p.2, word' p.2⟩) t t' := by
  induction params generalizing t with
  | nil =>
    cases hsteps
    exact .nil
  | cons p params ih =>
    cases hsteps with
    | cons hstep hsteps => exact .cons ⟨h.1, hstep⟩ (ih (h.2 _ _ hstep) hsteps)

theorem quiet_mapSystem (h : ∀ t, Quiet other (· = t)) (t : Maps) :
    Quiet (mapSystem other reads) (· = t) := by
  refine ⟨(h t).createHandle, (h t).svcCloseHandle, fun addr t' ht => ?_, (h t).writeMemory,
    (h t).writeMemory32⟩
  unfold Ends
  simp only [mapSystem]
  cases reads addr with
  | ok byte => exact ht
  | error e => trivial

/-- **Mapped buffers are returned** after a request whose buffers are all mapped page by page, and
the unmapping comes to its end. The reply may have the buffers in any order, among others. -/
theorem buffers_returned (other : System Maps Object) (reads : VAddr → Except Exception (BitVec 8))
    (hquiet : ∀ t, Quiet other (· = t)) {s s' r : Message Maps}
    (hclient : Disjoint s.system.source) (hserver : Disjoint s.system.dest)
    (hwhole : AllWhole other reads (mappedAt (s.tls .source) (s.tls .source)) s.system)
    (hs : s.tlsOffset = 0x80)
    (hrequest : translateIPCMessage (mapSystem other reads) false s = .ok () s')
    (hr : r.tlsOffset = 0x80) (hsystem : r.system = ⟨s'.system.dest, s'.system.source⟩)
    (hreply : (mappedAt (r.tls .source) (r.tls .source)).Perm
      (mappedAt (s.tls .source) (s'.tls .dest))) :
    (∀ r', translateIPCMessage (mapSystem other reads) true r = .ok () r' →
      BuffersReturned (requestBuffers (s.tls .source) (s'.tls .dest)) s.system.source s.system.dest
        s'.system.dest r'.system.dest r'.system.source) ∧
    ((∀ addr, ∃ byte, reads addr = .ok byte) → ∃ u, Steps (replyStep other reads)
      (requestBuffers (s.tls .source) (s'.tls .dest)) r.system u) := by
  have hquiet : ∀ t, Quiet (mapSystem other reads) (· = t) := quiet_mapSystem hquiet
  obtain ⟨s₁, hsystem₁, hsource₁, hoffset₁, -, hparams₁⟩ :=
    translateIPCMessage_params (mapSystem other reads) false hs
  rw [hparams₁] at hrequest
  have hsteps : Steps (requestStep other reads) (requestBuffers (s.tls .source) (s'.tls .dest))
      s.system s'.system := by
    rw [← hsystem₁]
    refine translateParams_steps (R := fun b p => b = ⟨p.1, s.tls .source p.2, s'.tls .dest p.2⟩)
      hquiet hrequest ?_ ?_
    · rintro _ p s₂ s₃ rfl hsource₂ hoffset₂ hrun hdest
      exact ⟨s₂, s₃, by rw [hoffset₂, hsource₂, hsource₁], rfl, hrun, rfl, fun _ => by
        rw [hoffset₂, ← hdest]⟩
    · rw [hsource₁, hoffset₁, requestBuffers, List.forall₂_map_left_iff]
      exact List.forall₂_same.2 fun _ _ => rfl
  obtain ⟨hsource, hholding, hshared⟩ := (hwhole.steps hsteps).request hclient hserver
  have hsource₀ : r.system.source = s'.system.dest := congrArg Maps.source hsystem
  have hdest₀ : r.system.dest = s.system.source := (congrArg Maps.dest hsystem).trans hsource
  refine ⟨fun r' hrun => ?_, fun hreads => (hsource₀ ▸ hholding).exists_reply hreads⟩
  have hbuffers : List.Forall₂ (fun x (b : Buffer) => x = (b.descriptor, b.delivered))
      (mappedAt (s.tls .source) (s'.tls .dest))
      (requestBuffers (s.tls .source) (s'.tls .dest)) := by
    unfold mappedAt requestBuffers
    rw [List.forall₂_map_left_iff, List.forall₂_map_right_iff]
    exact List.forall₂_same.2 fun _ _ => rfl
  obtain ⟨l, hl, hperm⟩ := List.perm_comp_forall₂ hreply hbuffers
  obtain ⟨r₁, hsystem₂, hsource₂, hoffset₂, -, hparams₂⟩ :=
    translateIPCMessage_params (mapSystem other reads) true hr
  rw [hparams₂] at hrun
  have hreplies : Steps (replyStep other reads) l r.system r'.system := by
    rw [← hsystem₂]
    refine translateParams_steps (R := fun b p => (p.1, r.tls .source p.2) =
      (b.descriptor, b.delivered)) hquiet hrun ?_ ?_
    · rintro b p s₂ s₃ hb hsource₃ hoffset₃ hrun -
      obtain ⟨hdescriptor, hdelivered⟩ := Prod.mk.inj hb
      exact ⟨s₂, s₃, by rw [hoffset₃, hsource₃, hsource₂, hdelivered], rfl, hdescriptor ▸ hrun, rfl⟩
    · rw [hsource₂, hoffset₂]
      rw [mappedAt, List.forall₂_map_left_iff] at hl
      exact hl.flip
  rw [← hsource₀] at hholding
  obtain ⟨hdest, hend⟩ := hreplies.reply (hholding.perm hperm)
  exact ⟨hshared, fun a => hend.frame a nofun, hdest.trans hdest₀⟩

end

/-! ## One page -/

/-- A system in which only the two maps change. -/
def stillSystem : System Maps Unit where
  processId _ := 1
  findObject _ _ := none
  isAddressArbiter _ := false
  createHandle _ _ := pure 0
  svcCloseHandle _ := pure 0
  resolveVirtualAddrWithSize _ _ := none
  resolveDestAddr _ _ := none
  readMemory _ := pure 0
  writeMemory _ _ := pure ()
  writeMemory32 _ _ := pure ()
  findAvailableVirtualMemory _ _ _ _ := none
  mapVirtualMemory _ _ _ _ := pure false
  unmapVirtualMemory _ _ := pure false

theorem stillSystem_quiet (t : Maps) : Quiet stillSystem (· = t) :=
  ⟨fun _ _ _ h => h, fun _ _ h => h, fun _ _ h => h, fun _ _ _ h => h, fun _ _ _ h => h⟩

/-- The maps, with memory that reads as zero. -/
def oneSystem : System Maps Unit := mapSystem stillSystem fun _ => .ok 0

/-- A page of the client. -/
def pageClient : VirtualMemory :=
  ⟨[(0x08000000, ⟨0x20000000, 0x1000, .readWrite⟩)], List.pairwise_singleton _ _⟩

theorem pageClient_disjoint : Disjoint pageClient := .singleton (by decide) (by decide)

/-- A server in which the first free addresses start within a page. -/
def halfServer : VirtualMemory :=
  ⟨[(0x10000000, ⟨0x21000000, 0x800, .readWrite⟩)], List.pairwise_singleton _ _⟩

theorem halfServer_disjoint : Disjoint halfServer := .singleton (by decide) (by decide)

/-- A message with a buffer of one byte, of type `MapReadOnly`. -/
def oneBuffer (t : Maps) (addr : VAddr) : Message Maps where
  tls := fun side offset => match side with
    | .source =>
      if offset = 0x80 then 2 else if offset = 0x84 then 0x1a else if offset = 0x88 then addr else 0
    | .dest => 0
  tlsOffset := 0x80
  usedMask := 0
  accesses := []
  system := t

section

variable {t : Maps} {addr : VAddr} {isReply : Bool} {Q : Unit → Message Maps → Prop}
  {E : Exception → Message Maps → Prop}

theorem oneBuffer_header : (⟨2⟩ : CommandHeader).commandEnd = 0x8c ∧
    (⟨2⟩ : CommandHeader).sizeTranslateParams = 2 ∧ (⟨2⟩ : CommandHeader).numNormalParams = 0 := by
  decide

theorem isMapBuffer_oneBuffer : IsMapBuffer ⟨0x1a⟩ := by decide

theorem oneBuffer_params (word' : ℕ → BitVec 32) :
    mappedAt ((oneBuffer t addr).tls .source) word' = [(⟨0x1a⟩, word' 0x88)] := by
  obtain ⟨hend, hsize, hnormal⟩ := oneBuffer_header
  unfold mappedAt messageParams
  rw [show (oneBuffer t addr).tls .source 0x80 = 2 from rfl]
  simp only [hend, hsize, hnormal, mapParams]
  rw [if_pos (by decide), show (oneBuffer t addr).tls .source (0x84 + 4 * 0) = 0x1a from rfl,
    if_pos isMapBuffer_oneBuffer, isMapBuffer_oneBuffer.numParams, if_neg (by decide)]
  rfl

theorem oneBuffer_ends (h : ∀ s : Message Maps, s.system = t → s.tls .source s.tlsOffset = addr →
    s.tlsOffset = 0x88 → Ends (translateMapBuffer oneSystem isReply ⟨0x1a⟩) s Q E) :
    Ends (translateIPCMessage oneSystem isReply) (oneBuffer t addr) Q E := by
  obtain ⟨hend, hsize, hnormal⟩ := oneBuffer_header
  obtain ⟨s₁, hsystem, hsource, hoffset, -, hparams⟩ :=
    translateIPCMessage_params (s := oneBuffer t addr) oneSystem isReply rfl
  rw [show (oneBuffer t addr).tls .source 0x80 = 2 from rfl] at hoffset hparams
  rw [hnormal] at hoffset
  rw [hend, hsize] at hparams
  unfold Ends
  rw [hparams]
  show Ends (translateParams oneSystem isReply 0x8c 2) s₁ Q E
  simp only [translateParams]
  rw [ends_tlsOffset, if_pos (by rw [hoffset]; decide)]
  let At (o : ℕ) (s : Message Maps) : Prop :=
    s.system = t ∧ s.tls .source = (oneBuffer t addr).tls .source ∧ s.tlsOffset = o
  refine Ends.bind (Q := fun raw s₂ => raw = 0x1a ∧ At 0x84 s₂)
    ⟨by rw [hsource, hoffset]; rfl, hsystem, hsource, hoffset⟩ ?_
  rintro _ s₂ ⟨rfl, h₂⟩
  refine Ends.bind (Q := fun _ => At 0x84) ⟨h₂.1, h₂.2.1, h₂.2.2⟩ fun _ s₃ h₃ => ?_
  refine Ends.bind (Q := fun _ => At 0x88)
    ⟨h₃.1, h₃.2.1, congrArg (· + 4) h₃.2.2⟩ fun _ s₄ h₄ => ?_
  obtain ⟨hsystem₄, hsource₄, hoffset₄⟩ := h₄
  rw [isMapBuffer_oneBuffer.translate]
  refine Ends.bind (Q := fun v s₅ => Q v s₅ ∧ s₅.tlsOffset = 0x8c) ?_ fun _ s₅ h₅ => ?_
  · have hends := h s₄ hsystem₄ (by rw [hsource₄, hoffset₄]; rfl) hoffset₄
    have hmoves : Run (Allowed 0 0x8c) 4 (translateMapBuffer oneSystem isReply ⟨0x1a⟩) s₄ :=
      translateMapBuffer_run oneSystem ⟨0x1a⟩ isReply (Nat.zero_le _) (by rw [hoffset₄]; decide)
    unfold Ends
    cases hrun : translateMapBuffer oneSystem isReply ⟨0x1a⟩ s₄ with
    | ok v s₅ => exact ⟨hends.ok hrun, by rw [(hmoves.ok hrun).offset, hoffset₄]⟩
    | error e s₅ => exact hends.error hrun
  · rw [ends_tlsOffset, if_neg (by rw [h₅.2]; decide)]
    exact h₅.1

/-- The request for a page of the client, where the first free addresses start at `dest`. -/
theorem oneBuffer_request (server : VirtualMemory) (dest : VAddr) (hfind :
      Mikage.findAvailableVirtualMemory server 0x1000 0x10000000 0x20000000 = some dest)
    (hok : (Mikage.mapVirtualMemory server 0x20000000 0x1000 dest .read).outcome = .ok true) :
    ∃ s', translateIPCMessage oneSystem false (oneBuffer ⟨pageClient, server⟩ 0x08000000) =
        .ok () s' ∧ s'.tls .dest 0x88 = dest ∧ s'.system = ⟨pageClient,
          (Mikage.mapVirtualMemory server 0x20000000 0x1000 dest .read).memory⟩ := by
  let b : Buffer := ⟨⟨0x1a⟩, 0x08000000, dest⟩
  have hbuffer : b.descriptor = ⟨0x1a⟩ ∧ b.addr = 0x08000000 := ⟨rfl, rfl⟩
  have hpages : b.pages = 0x1000 := by
    show mappedSize 0x08000000 (⟨0x1a⟩ : TranslationDescriptor).mapBufferSize = 0x1000
    decide
  have hsize : b.size ≠ 0 := by
    show (⟨0x1a⟩ : TranslationDescriptor).mapBufferSize ≠ 0
    decide
  have hchunk : chunkAt pageClient 0x08000000 = some ⟨0x20000000, 0x1000, by decide⟩ := rfl
  have hends : Ends (translateIPCMessage oneSystem false)
      (oneBuffer ⟨pageClient, server⟩ 0x08000000) (fun _ s' => s'.tls .dest 0x88 = dest ∧
        s'.system = ⟨pageClient,
          (Mikage.mapVirtualMemory server 0x20000000 0x1000 dest .read).memory⟩)
      fun _ _ => False := by
    refine oneBuffer_ends fun s hsystem haddr hoffset => ?_
    have hfind' : Mikage.findAvailableVirtualMemory s.system.dest b.pages 0x10000000 0x20000000 =
        some dest := by rw [hsystem, hpages, hfind]
    refine Ends.mono (request_ends (b := b) (P := fun dest t' => t' = ⟨pageClient,
      (Mikage.mapVirtualMemory server 0x20000000 0x1000 dest .read).memory⟩) haddr hsize
      (fun h => ?_) (fun _ h s₁ hs₁ => ?_) ?_) (fun _ s' h => ?_) fun _ _ h => h
    · rw [hfind'] at h
      cases h
    · obtain rfl := Option.some.inj (hfind'.symm.trans h)
      rw [hpages, mapChunks, dif_pos (by decide), ends_get]
      have hresolve : (mapSystem stillSystem fun _ => .ok 0).resolveVirtualAddrWithSize
          ((b.addr + BitVec.ofNat 32 0) &&& ~~~0xfff#32) s₁.system =
            some ⟨0x20000000, 0x1000, by decide⟩ := by
        have hpage : ((0x08000000 : VAddr) + BitVec.ofNat 32 0) &&& ~~~0xfff#32 = 0x08000000 := by
          decide
        rw [hs₁, hsystem, hbuffer.2, hpage]
        exact hchunk
      simp only [hresolve]
      have hpermissions : mapPermissions ⟨0x1a⟩ = .read := by decide
      rw [hbuffer.1, hpermissions]
      refine Ends.bind (Q := fun success s₂ => success = true ∧ s₂.system = ⟨pageClient,
        (Mikage.mapVirtualMemory server 0x20000000 0x1000 dest .read).memory⟩) ?_ ?_
      · rw [ends_call, hs₁, hsystem]
        unfold Ends
        simp only [mapSystem, updated]
        rw [show dest + BitVec.ofNat 32 0 = dest from BitVec.add_zero _,
          show BitVec.ofNat 32 (min (0x1000 : BitVec 32).toNat ((0x1000 : BitVec 32).toNat - 0)) =
            0x1000 from rfl, hok]
        exact ⟨rfl, rfl⟩
      · rintro _ s₂ ⟨rfl, h₂⟩
        simp only [Bool.not_true, Bool.false_eq_true, if_false]
        rw [mapChunks, dif_neg (by decide)]
        exact h₂
    · rintro e _ ⟨addr, h⟩
      cases h
    · obtain ⟨_, h, hmaps, htls⟩ := h
      obtain rfl := Option.some.inj (hfind'.symm.trans h)
      rw [hoffset] at htls
      have hoff : (0x08000000 : VAddr) &&& 0xfff = 0 := by decide
      rw [hbuffer.2, hoff] at htls
      exact ⟨htls.trans (BitVec.add_zero _), hmaps⟩
  unfold Ends at hends
  cases hrun : translateIPCMessage oneSystem false (oneBuffer ⟨pageClient, server⟩ 0x08000000) with
  | ok v s' =>
    rw [hrun] at hends
    exact ⟨s', rfl, hends⟩
  | error e s' =>
    rw [hrun] at hends
    exact hends.elim

/-- The reply gives the server the memory back that it had before. -/
theorem oneBuffer_returned : ∃ s' : Message Maps,
    translateIPCMessage oneSystem false (oneBuffer ⟨pageClient, .empty⟩ 0x08000000) = .ok () s' ∧
    let r := oneBuffer ⟨s'.system.dest, s'.system.source⟩ (s'.tls .dest 0x88)
    let l := requestBuffers ((oneBuffer ⟨pageClient, .empty⟩ 0x08000000).tls .source) (s'.tls .dest)
    (∀ r', translateIPCMessage oneSystem true r = .ok () r' → BuffersReturned l pageClient .empty
      s'.system.dest r'.system.dest r'.system.source) ∧
    ((∀ addr, ∃ byte, (fun _ : VAddr => (.ok 0 : Except Exception (BitVec 8))) addr = .ok byte) →
      ∃ u, Steps (replyStep stillSystem fun _ => .ok 0) l r.system u) := by
  obtain ⟨s', hrun, -, -⟩ := oneBuffer_request .empty 0x10000000 rfl rfl
  refine ⟨s', hrun, buffers_returned stillSystem (fun _ => .ok 0) stillSystem_quiet
    pageClient_disjoint .empty ?_ rfl hrun rfl rfl ?_⟩
  · rw [oneBuffer_params]
    refine ⟨fun _ => ⟨.inl ⟨0x10000000, le_rfl, by decide, fun _ _ _ _ h => ?_⟩, ?_, ?_⟩, ?_⟩
    · exact absurd h SortedMap.not_mem_empty
    · intro a ha
      obtain rfl : 0x10000000 = a := Option.some.inj ha
      decide
    · intro k hk hdvd chunk hchunk
      have hsize : (mappedSize 0x08000000 (⟨0x1a⟩ : TranslationDescriptor).mapBufferSize).toNat =
          0x1000 := by decide
      have hfirst : chunkAt pageClient 0x08000000 = some ⟨0x20000000, 0x1000, by decide⟩ := rfl
      have hpage : pageOf 0x08000000 + BitVec.ofNat 32 0 = 0x08000000 := by decide
      obtain rfl : k = 0 := Nat.eq_zero_of_dvd_of_lt hdvd (hsize ▸ hk)
      have hchunk : chunkAt pageClient (pageOf 0x08000000 + BitVec.ofNat 32 0) = some chunk :=
        hchunk
      rw [hpage] at hchunk
      obtain rfl := Option.some.inj (hfirst.symm.trans hchunk)
      exact .inl (by decide)
    · exact fun _ _ _ => trivial
  · rw [oneBuffer_params, oneBuffer_params]
    exact List.Perm.refl _

/-- In the half-mapped page, the reply takes memory from the server. -/
theorem buffers_lost : ¬ ∀ s s' r r' : Message Maps, Disjoint s.system.source →
    Disjoint s.system.dest → s.tlsOffset = 0x80 →
    translateIPCMessage oneSystem false s = .ok () s' → r.tlsOffset = 0x80 →
    r.system = ⟨s'.system.dest, s'.system.source⟩ →
    (mappedAt (r.tls .source) (r.tls .source)).Perm (mappedAt (s.tls .source) (s'.tls .dest)) →
    translateIPCMessage oneSystem true r = .ok () r' →
    BuffersReturned (requestBuffers (s.tls .source) (s'.tls .dest)) s.system.source s.system.dest
      s'.system.dest r'.system.dest r'.system.source := by
  intro hreturned
  obtain ⟨s', hrun, hdelivered, hsystem⟩ :=
    oneBuffer_request halfServer 0x10000800 rfl rfl
  let r := oneBuffer ⟨s'.system.dest, s'.system.source⟩ (s'.tls .dest 0x88)
  let m := (Mikage.mapVirtualMemory halfServer 0x20000000 0x1000 0x10000800 .read).memory
  let b : Buffer := ⟨⟨0x1a⟩, 0x08000000, 0x10000800⟩
  have hends : Ends (translateIPCMessage oneSystem true) r
      (fun _ r' => r'.system.source = (Mikage.unmapVirtualMemory m 0x10000000 0x1000).memory)
      fun e _ => ReadFault (fun _ => .ok 0) e := by
    refine oneBuffer_ends fun s hs haddr _ => ?_
    have hsource : s.system.source = m := by rw [hs, hsystem]
    have hrange : pageOf 0x10000800 = 0x10000000 ∧
        mappedSize 0x10000800 (⟨0x1a⟩ : TranslationDescriptor).mapBufferSize = 0x1000 := by decide
    have hsize : (⟨0x1a⟩ : TranslationDescriptor).mapBufferSize ≠ 0 := by decide
    have hok : (Mikage.unmapVirtualMemory m 0x10000000 0x1000).outcome = .ok true := by decide
    have hreply : Ends (translateMapBuffer oneSystem true ⟨0x1a⟩) s _ _ := IPC.reply_ends (b := b)
      (haddr.trans hdelivered) hsize (by
        show (Mikage.unmapVirtualMemory s.system.source (pageOf 0x10000800)
          (mappedSize 0x10000800 (⟨0x1a⟩ : TranslationDescriptor).mapBufferSize)).outcome = _
        rw [hsource, hrange.1, hrange.2, hok])
    refine hreply.mono (fun _ r' h => ?_) fun _ _ h => h
    refine h.2.trans ?_
    show (Mikage.unmapVirtualMemory s.system.source (pageOf 0x10000800)
      (mappedSize 0x10000800 (⟨0x1a⟩ : TranslationDescriptor).mapBufferSize)).memory = _
    rw [hsource, hrange.1, hrange.2]
  cases hreply : translateIPCMessage oneSystem true r with
  | ok v r' =>
    have hsource := hends.ok hreply
    have hrestored := (hreturned _ s' r r' pageClient_disjoint halfServer_disjoint rfl hrun rfl rfl
      (by rw [oneBuffer_params, oneBuffer_params]; exact List.Perm.refl _) hreply).restored
        0x10000000
    rw [hsource] at hrestored
    exact absurd hrestored (by decide)
  | error e r' =>
    obtain ⟨addr, h⟩ := hends.error hreply
    cases h

end

end Mikage.IPC
