import RemoteFs.Smb.Connection

/-!
# No message id is taken twice

What every section of a connection does to the credits.  New ids come after all ids
there ever were, so an id that was taken never comes back, and a grant stops where
the set would exceed its bound or the ids would wrap.
-/

namespace RemoteFs

open Storage (refuse_ok bind_ok check_bind_ok)

namespace Smb

open Wire hiding Limits

namespace Connection

variable {limits : Limits} {c c' : Connection} {request : Request} {id : UInt64}

/-! ## What a section does to the credits -/

structure Same (c c' : Connection) : Prop where
  credits : c'.credits = c.credits
  next : c'.nextCredit = c.nextCredit
  first : c'.firstPacket = c.firstPacket

/-- The id is one of those that a request is charged. -/
def Charges (request : Request) (id : UInt64) : Prop :=
  request.header.messageID.toNat ≤ id.toNat ∧
    id.toNat < request.header.messageID.toNat + (chargeOf request.header).toNat

/-- A request takes its whole range, which is large enough and does not wrap. -/
structure Taken (request : Request) (c c' : Connection) : Prop where
  enough : requiredCredits request ≤ (chargeOf request.header).toNat
  room : request.header.messageID.toNat + (chargeOf request.header).toNat < 2 ^ 64
  held : ∀ id, Charges request id → id ∈ c.credits
  credits : ∀ id, id ∈ c'.credits ↔ id ∈ c.credits ∧ ¬Charges request id
  next : c'.nextCredit = c.nextCredit
  first : c'.firstPacket = c.firstPacket

/-- A response grants the next ids: those that are asked for, but at least one, as
far as the bound of the set and the last id allow. -/
structure Granted (limits : Limits) (requested count : UInt16) (c c' : Connection) : Prop where
  number : (count.toNat : ℤ) =
    min (min (max (requested.toNat : ℤ) 1) (limits.maxRequests - c.credits.card))
      (2 ^ 64 - 1 - c.nextCredit.toNat)
  next : c'.nextCredit.toNat = c.nextCredit.toNat + count.toNat
  credits : ∀ id, id ∈ c'.credits ↔ id ∈ c.credits ∨ c.nextCredit ≤ id ∧ id < c'.nextCredit
  card : c'.credits.card = c.credits.card + count.toNat
  first : c'.firstPacket = c.firstPacket

/-- The credits around each section. -/
def Accounts (limits : Limits) (c c' : Connection) : Step → Prop
  | .receive _ => Same c c' ∨ c'.firstPacket = false ∧
    (c'.credits = c.credits ∧ c'.nextCredit = c.nextCredit ∨
      c.firstPacket = true ∧ c'.credits = {1} ∧ c'.nextCredit = 2)
  | .read =>
    match c.reading with
    | .consuming requests (request :: rest) reject =>
      c'.reading = .stopped ∧ Same c c' ∨
        c'.reading = .consuming requests rest reject ∧ Taken request c c'
    | _ => Same c c'
  | .rejectRequest false =>
    match c.reading with
    | .rejecting (request :: _) =>
      let requested := request.header.credits
      Granted limits requested (c.grantCredits limits requested).2 c c'
    | _ => Same c c'
  | .grant worker =>
    match c.workers.get? worker with
    | some ⟨_, request :: _, true⟩ =>
      let requested := request.header.credits
      Granted limits requested (c.grantCredits limits requested).2 c c'
    | _ => Same c c'
  | _ => Same c c'

/-! ## Ids as numbers -/

lemma toNat_maxUint64 : maxUint64.toNat = 2 ^ 64 - 1 := rfl

lemma mem_idRange (hroom : ¬maxUint64 - (chargeOf request.header).toUInt64 <
      request.header.messageID) :
    request.header.messageID.toNat + (chargeOf request.header).toNat < 2 ^ 64 ∧
      ∀ id, id ∈ idRange request.header.messageID (chargeOf request.header) ↔
        Charges request id := by
  unfold Charges
  generalize chargeOf request.header = charge at hroom ⊢
  generalize request.header.messageID = start at hroom ⊢
  have hcharge := UInt16.toNat_toUInt64 charge
  have hsmall := charge.toNat_lt
  have hle : charge.toUInt64 ≤ maxUint64 := by
    rw [UInt64.le_iff_toNat_le, hcharge, toNat_maxUint64]
    omega
  rw [UInt64.not_lt, UInt64.le_iff_toNat_le, UInt64.toNat_sub_of_le _ _ hle,
    hcharge, toNat_maxUint64] at hroom
  have hsum : ∀ offset < charge.toNat,
      (start + UInt64.ofNat offset).toNat = start.toNat + offset := by
    intro offset hoffset
    rw [UInt64.toNat_add, UInt64.toNat_ofNat']
    omega
  refine ⟨by omega, fun id => ?_⟩
  simp only [idRange, List.mem_map, List.mem_range]
  constructor
  · rintro ⟨offset, hoffset, rfl⟩
    rw [hsum offset hoffset]
    omega
  · rintro ⟨hlow, hhigh⟩
    refine ⟨id.toNat - start.toNat, by omega, UInt64.toNat_inj.mp ?_⟩
    rw [hsum _ (by omega)]
    omega

lemma grantIds_spec (count : ℕ) (next : UInt64) :
    (grantIds count next).length = min count (2 ^ 64 - 1 - next.toNat) ∧
      (grantIds count next).Nodup ∧ ∀ id, id ∈ grantIds count next ↔
        next.toNat ≤ id.toNat ∧ id.toNat < next.toNat + (grantIds count next).length := by
  induction count generalizing next with
  | zero =>
    simp only [grantIds, List.length_nil, List.nodup_nil, List.not_mem_nil, true_and]
    exact ⟨by omega, fun id => by simp only [false_iff]; omega⟩
  | succ count ih =>
    have hlt := next.toNat_lt
    rw [grantIds]
    split_ifs with hlast
    · subst hlast
      simp only [List.length_nil, List.nodup_nil, List.not_mem_nil, toNat_maxUint64, true_and]
      exact ⟨by omega, fun id => by simp only [false_iff]; omega⟩
    have hne : next.toNat ≠ 2 ^ 64 - 1 := fun heq => hlast (UInt64.toNat_inj.mp heq)
    have hsucc : (next + 1).toNat = next.toNat + 1 := by
      rw [UInt64.toNat_add, UInt64.toNat_one]
      omega
    obtain ⟨hlen, hnodup, hm⟩ := ih (next + 1)
    rw [hsucc] at hlen
    simp only [hsucc] at hm
    refine ⟨by rw [List.length_cons, hlen]; omega, List.nodup_cons.mpr ⟨?_, hnodup⟩, fun id => ?_⟩
    · rw [hm]
      omega
    · rw [List.mem_cons, hm, ← UInt64.toNat_inj, List.length_cons]
      omega

/-! ## The sections -/

lemma receive_accounts (hre : c.receive limits packet = .ok c') :
    c'.firstPacket = false ∧ (c'.credits = c.credits ∧ c'.nextCredit = c.nextCredit ∨
      c.firstPacket = true ∧ c'.credits = {1} ∧ c'.nextCredit = 2) := by
  simp only [receive, check_bind_ok] at hre
  obtain ⟨-, hre⟩ := hre
  split_ifs at hre
  · simp only [check_bind_ok, refuse_ok, pure, Except.pure, not_not] at hre
    obtain ⟨hfi, -, hre⟩ := hre
    cases hre
    exact ⟨rfl, .inr ⟨hfi, rfl, rfl⟩⟩
  obtain ⟨requests, -, hre⟩ := bind_ok.mp hre
  simp only [check_bind_ok, pure, Except.pure] at hre
  obtain ⟨-, -, -, -, hre⟩ := hre
  cases hre
  exact ⟨rfl, .inl ⟨rfl, rfl⟩⟩

lemma consume_taken {reject : Bool} (hconsume : c.consume frame request reject = .ok c')
    (reading : Reading) : Taken request c { c' with reading } := by
  simp only [consume, bind_ok, pure, Except.pure] at hconsume
  obtain ⟨credits, htake, hconsume⟩ := hconsume
  cases hconsume
  simp only [takeCredits, check_bind_ok, refuse_ok, not_not, List.all_eq_true, decide_eq_true_eq,
    pure, Except.pure, Except.ok.injEq, not_lt] at htake
  obtain ⟨hroom, henough, hheld, rfl⟩ := htake
  obtain ⟨hwraps, hids⟩ := mem_idRange hroom
  refine ⟨henough, hwraps, fun id hid => hheld id ((hids id).mpr hid), fun id => ?_, rfl, rfl⟩
  rw [Finset.mem_sdiff, List.mem_toFinset, hids]

/-- Before the first packet nothing but a packet moves the connection, so its credits
are still those of the start when a bootstrap replaces them. -/
lemma exec_new (hc : c = new ∨ c = new.stop) (step : Step) :
    (c.exec limits step).firstPacket = false ∨ c.exec limits step = new ∨
      c.exec limits step = new.stop := by
  cases step with
  | receive packet =>
    simp only [exec]
    split
    · split
      · rcases hc with rfl | rfl <;> exact .inr (.inr rfl)
      · next hre => exact .inl (receive_accounts hre).1
    · exact .inr hc
  | stop => rcases hc with rfl | rfl <;> exact .inr (.inr rfl)
  | _ => rcases hc with rfl | rfl <;> first | exact .inr (.inl rfl) | exact .inr (.inr rfl)

structure Sound (limits : Limits) (c : Connection) : Prop where
  fresh : c.firstPacket = false ∨ c = new ∨ c = new.stop
  below : ∀ id ∈ c.credits, id < c.nextCredit
  bounded : (c.credits.card : ℤ) ≤ limits.maxRequests

/-- Credits only come from the ids that follow. -/
structure Follows (limits : Limits) (c c' : Connection) : Prop where
  first : c.firstPacket = false → c'.firstPacket = false
  next : c.nextCredit ≤ c'.nextCredit
  added : ∀ id ∈ c'.credits, id ∈ c.credits ∨ c.nextCredit ≤ id ∧ id < c'.nextCredit
  bounded : (c'.credits.card : ℤ) ≤ limits.maxRequests

lemma Sound.same (h : Sound limits c) (hs : Same c c') : Follows limits c c' :=
  ⟨fun hfi => hs.first.trans hfi, hs.next ▸ UInt64.le_refl _,
    fun _ hid => .inl (hs.credits ▸ hid), hs.credits ▸ h.bounded⟩

lemma Sound.taken (h : Sound limits c) (htaken : Taken request c c') : Follows limits c c' := by
  have hsub : c'.credits ⊆ c.credits := fun id hid => ((htaken.credits id).mp hid).1
  have hcard := Finset.card_le_card hsub
  have hbounded := h.bounded
  exact ⟨fun hfi => htaken.first.trans hfi, htaken.next ▸ UInt64.le_refl _,
    fun _ hid => .inl (hsub hid), by omega⟩

lemma Granted.follows {requested count : UInt16} (hgr : Granted limits requested count c c') :
    Follows limits c c' := by
  have hnumber := hgr.number
  have hcard := hgr.card
  have hnext := hgr.next
  refine ⟨fun hfi => hgr.first.trans hfi, ?_, fun id => (hgr.credits id).mp, ?_⟩
  · rw [UInt64.le_iff_toNat_le]
    omega
  · omega

section

variable (hli : limits.check = .ok ())
include hli

lemma Sound.granted (h : Sound limits c) (requested : UInt16)
    (hcr : c'.credits = (c.grantCredits limits requested).1.credits)
    (hnext : c'.nextCredit = (c.grantCredits limits requested).1.nextCredit)
    (hfi : c'.firstPacket = c.firstPacket) :
    Granted limits requested (c.grantCredits limits requested).2 c c' := by
  obtain ⟨-, hmax⟩ := Limits.maxRequests_of_check hli
  obtain ⟨hlen, hnodup, hm⟩ :=
    grantIds_spec (grantCount limits c requested).toNat c.nextCredit
  have hcard := h.bounded
  have hlt := c.nextCredit.toNat_lt
  have hcount : grantCount limits c requested =
      min (max (requested.toNat : ℤ) 1) (limits.maxRequests - c.credits.card) := by
    simp only [grantCount]
    split_ifs <;> omega
  simp only [grantCredits] at hcr hnext ⊢
  generalize grantCount limits c requested = count at hlen hm hnodup hcount hcr hnext ⊢
  generalize grantIds count.toNat c.nextCredit = ids at hlen hm hnodup hcr hnext ⊢
  have hgr : (if ids.length < count.toNat then UInt16.ofNat ids.length
      else UInt16.ofInt count).toNat = ids.length := by
    split_ifs with hearly
    · rw [UInt16.toNat_ofNat']
      omega
    · obtain ⟨n, rfl⟩ := Int.eq_ofNat_of_zero_le (show 0 ≤ count by omega)
      rw [UInt16.ofInt, UInt16.toNat_ofNat']
      omega
  have hnextNat : c'.nextCredit.toNat = c.nextCredit.toNat + ids.length := by
    rw [hnext, UInt64.toNat_add, UInt64.toNat_ofNat']
    omega
  have hnew : ∀ id, id ∈ ids ↔ c.nextCredit ≤ id ∧ id < c'.nextCredit := by
    intro id
    rw [hm, UInt64.le_iff_toNat_le, UInt64.lt_iff_toNat_lt, hnextNat]
  refine ⟨?_, by rw [hgr, hnextNat], fun id => ?_, ?_, hfi⟩
  · rw [hgr]
    omega
  · rw [hcr, Finset.mem_union, List.mem_toFinset, hnew]
  · rw [hgr, hcr, Finset.card_union_of_disjoint, List.toFinset_card_of_nodup hnodup]
    refine Finset.disjoint_left.mpr fun id hid hids => ?_
    exact UInt64.not_le.mpr (h.below id hid) ((hnew id).mp (List.mem_toFinset.mp hids)).1

lemma Sound.accounts (h : Sound limits c) (step : Step) :
    Accounts limits c (c.exec limits step) step := by
  have hs : ∀ {d : Connection}, d.credits = c.credits → d.nextCredit = c.nextCredit →
      d.firstPacket = c.firstPacket → Same c d := fun h₁ h₂ h₃ => ⟨h₁, h₂, h₃⟩
  cases step with
  | receive packet =>
    simp only [Accounts, exec]
    split
    · split
      · exact .inl (hs rfl rfl rfl)
      · next hre => exact .inr (receive_accounts hre)
    · exact .inl (hs rfl rfl rfl)
  | read =>
    simp only [Accounts, exec, read]
    split
    · next heq =>
      simp only [heq]
      split_ifs
      · exact .inl ⟨rfl, hs rfl rfl rfl⟩
      · split
        · exact .inl ⟨rfl, hs rfl rfl rfl⟩
        · next hconsume => exact .inr ⟨rfl, consume_taken hconsume _⟩
    · split
      · next hnone _ _ _ _ _ heq => exact (hnone _ _ _ _ heq).elim
      · unfold dispatch
        split_ifs <;> exact hs rfl rfl rfl
      · exact hs rfl rfl rfl
  | rejectRequest fails =>
    cases fails with
    | true =>
      simp only [Accounts, exec, rejectRequest]
      split <;> exact hs rfl rfl rfl
    | false =>
      simp only [Accounts, exec, rejectRequest]
      split
      · next heq =>
        simp only [heq]
        exact h.granted hli _ rfl rfl rfl
      · split
        · next hnone _ _ _ heq => exact (hnone _ _ heq).elim
        all_goals exact hs rfl rfl rfl
  | grant worker =>
    simp only [Accounts, exec, grant]
    split
    · next heq =>
      simp only [heq]
      exact h.granted hli _ rfl rfl rfl
    · split
      · next hnone _ _ _ _ heq => exact (hnone _ _ _ heq).elim
      · exact hs rfl rfl rfl
  | find worker =>
    simp only [Accounts, exec, find, abort]
    split
    · split
      · split <;> exact hs rfl rfl rfl
      · exact hs rfl rfl rfl
    · exact hs rfl rfl rfl
  | finish worker negotiated =>
    simp only [Accounts, exec, finish]
    split <;> exact hs rfl rfl rfl
  | abort worker =>
    simp only [Accounts, exec, abort]
    split <;> exact hs rfl rfl rfl
  | stop => exact hs rfl rfl rfl

lemma Sound.follows (h : Sound limits c) (step : Step) :
    Follows limits c (c.exec limits step) := by
  have hacc := h.accounts hli step
  cases step with
  | receive packet =>
    obtain hs | ⟨hfi, ⟨hcr, hnext⟩ | ⟨hold, hcr, hnext⟩⟩ := hacc
    · exact h.same hs
    · exact ⟨fun _ => hfi, hnext ▸ UInt64.le_refl _, fun id hid => .inl (hcr ▸ hid),
        hcr ▸ h.bounded⟩
    · obtain ⟨hlow, -⟩ := Limits.maxRequests_of_check hli
      have hnew : c.nextCredit = 1 := by
        rcases h.fresh with hfalse | rfl | rfl
        · cases hold.symm.trans hfalse
        all_goals rfl
      refine ⟨fun _ => hfi, ?_, fun id hid => .inr ?_, ?_⟩
      · rw [hnew, hnext]
        decide
      · rw [hcr, Finset.mem_singleton] at hid
        subst hid
        rw [hnew, hnext]
        decide
      · rw [hcr, Finset.card_singleton]
        omega
  | read =>
    simp only [Accounts] at hacc
    split at hacc
    · rcases hacc with ⟨-, hs⟩ | ⟨-, htaken⟩
      · exact h.same hs
      · exact h.taken htaken
    · exact h.same hacc
  | rejectRequest fails =>
    cases fails with
    | true => exact h.same hacc
    | false =>
      simp only [Accounts] at hacc
      split at hacc
      · exact hacc.follows
      · exact h.same hacc
  | grant worker =>
    simp only [Accounts] at hacc
    split at hacc
    · exact hacc.follows
    · exact h.same hacc
  | _ => exact h.same hacc

lemma Sound.step (h : Sound limits c) (step : Step) : Sound limits (c.exec limits step) := by
  have hf := h.follows hli step
  refine ⟨h.fresh.elim (fun hfi => .inl (hf.first hfi)) fun hc => exec_new hc step,
    fun id hid => ?_, hf.bounded⟩
  rcases hf.added id hid with hold | ⟨-, hnew⟩
  · exact UInt64.lt_of_lt_of_le (h.below id hold) hf.next
  · exact hnew

lemma Sound.run (h : Sound limits c) (steps : List Step) :
    Sound limits (steps.foldl (exec limits) c) :=
  Runs.invariant (motive := Sound limits) (fun _ step h => h.step hli step) h steps

lemma Sound.new : Sound limits new := by
  obtain ⟨hlow, -⟩ := Limits.maxRequests_of_check hli
  refine ⟨.inr (.inl rfl), fun id hid => ?_, hlow⟩
  rw [Finset.mem_singleton.mp hid]
  decide

/-- An id below the next one that no credit stands for stays without one. -/
lemma Sound.spent (h : Sound limits c) (hid : id < c.nextCredit) (hspent : id ∉ c.credits)
    (steps : List Step) : id ∉ (steps.foldl (exec limits) c).credits := by
  refine (Runs.invariant
    (motive := fun c => Sound limits c ∧ id < c.nextCredit ∧ id ∉ c.credits)
    (fun c step h => ?_) ⟨h, hid, hspent⟩ steps).2.2
  obtain ⟨h, hid, hspent⟩ := h
  have hf := h.follows hli step
  refine ⟨h.step hli step, UInt64.lt_of_lt_of_le hid hf.next, fun hm => ?_⟩
  rcases hf.added id hm with hold | ⟨hnew, -⟩
  · exact hspent hold
  · exact UInt64.not_le.mpr hid hnew

/-- From a new connection, every section accounts for the credits, the credits stay
within their bound, and a credit that one section takes away no later one brings back. -/
theorem message_ids_taken_once (steps : List Step) :
    let c := steps.foldl (exec limits) Connection.new
    (∀ id ∈ c.credits, id < c.nextCredit) ∧
      (c.credits.card : ℤ) ≤ limits.maxRequests ∧
      ∀ step, Accounts limits c (c.exec limits step) step ∧
        ∀ id ∈ c.credits, id ∉ (c.exec limits step).credits →
          ∀ more : List Step, id ∉ (more.foldl (exec limits) (c.exec limits step)).credits := by
  intro c
  have h : Sound limits c := (Sound.new hli).run hli steps
  refine ⟨h.below, h.bounded, fun step => ⟨h.accounts hli step, fun id hid htaken more => ?_⟩⟩
  have hf := h.follows hli step
  exact (h.step hli step).spent hli (UInt64.lt_of_lt_of_le (h.below id hid) hf.next)
    htaken more

end

/-- An echo that is charged the first message id. -/
def echoPacket : Bytes :=
  protocolID ++ [64, 0, 1, 0, 0, 0, 0, 0, 13, 0, 1, 0] ++ List.replicate 48 0 ++ [4, 0, 0, 0]

/-- The echo takes the only id and its response grants the next one; the first does
not come back. -/
theorem message_ids_taken_once_echo :
    let c := new.exec DefaultLimits (.receive echoPacket)
    let charged := c.exec DefaultLimits .read
    c.credits = {0} ∧ charged.credits = ∅ ∧
      ([.read, .find 0, .grant 0].foldl (exec DefaultLimits) charged).credits = {1} ∧
      ∀ more : List Step, 0 ∉ (more.foldl (exec DefaultLimits) charged).credits := by
  have h := message_ids_taken_once DefaultLimits_check [.receive echoPacket]
  refine ⟨by decide +kernel, by decide +kernel, by decide +kernel, ?_⟩
  exact (h.2.2 .read).2 0 (by decide +kernel) (by decide +kernel)

end Connection

end Smb
end RemoteFs
