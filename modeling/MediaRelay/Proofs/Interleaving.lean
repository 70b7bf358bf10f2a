import MediaRelay.Proofs.Isolation
import MediaRelay.Proofs.Room.Locality

/-!
Media in any order. Datagrams of different senders can change places, in one room or in two, and the
counters do not tell the difference; so only the order of each sender's own datagrams matters
(`Relay.Reachable.receiveAll_reorder`).
-/

namespace MediaRelay

variable {F : Type}

/-- In a list that lists the elements of each key in the same order as `i :: rest` does, those
before `i` have other keys than `i`, and without `i` it agrees with `rest`. -/
theorem front_of_filter_eq {ι κ : Type} [DecidableEq κ] {key : ι → Option κ} {i : ι}
    {rest others later : List ι} (hfirst : i ∉ others)
    (h : ∀ k, ((i :: rest).filter fun j => key j = some k) =
      (others ++ i :: later).filter fun j => key j = some k) :
    (∀ j ∈ others, ∀ k, key j = some k → key i ≠ some k) ∧
      ∀ k, (rest.filter fun j => key j = some k) =
        (others ++ later).filter fun j => key j = some k := by
  have hnone (k : κ) (hi : key i = some k) : (others.filter fun j => key j = some k) = [] := by
    have hk := h k
    rw [List.filter_cons_of_pos (by simpa using hi), List.filter_append] at hk
    cases hothers : others.filter fun j => key j = some k with
    | nil => rfl
    | cons j _ =>
      rw [hothers, List.cons_append, List.cons.injEq] at hk
      have hj : j ∈ others.filter fun j => key j = some k := hothers ▸ List.mem_cons_self
      exact absurd (hk.1 ▸ (List.mem_filter.mp hj).1) hfirst
  refine ⟨fun j hj k hjk hik => ?_, fun k => ?_⟩
  · exact List.filter_eq_nil_iff.mp (hnone k hik) j hj (by simpa using hjk)
  · have hk := h k
    rw [List.filter_append] at hk ⊢
    by_cases hi : key i = some k
    · rw [List.filter_cons_of_pos (by simpa using hi), List.filter_cons_of_pos (by simpa using hi),
        hnone k hi, List.nil_append, List.cons.injEq] at hk
      rw [hnone k hi, List.nil_append, hk.2]
    · rwa [List.filter_cons_of_neg (by simpa using hi),
        List.filter_cons_of_neg (by simpa using hi)] at hk

namespace Inbound

/-- The room and the sender that a datagram names. -/
def origin? (a : Inbound) : Option (RoomId × ParticipantId) :=
  (Datagram.decode a.raw).toOption.map fun d => (d.header.room, d.header.sender)

def IsMedia (a : Inbound) : Prop :=
  ∀ d, Datagram.decode a.raw = .ok d → d.header.packetType ≠ .feedback

/-- Not two datagrams of one sender in one room. -/
def Apart (a b : Inbound) : Prop := ∀ origin, a.origin? = some origin → b.origin? ≠ some origin

theorem isMedia_of_decode {a : Inbound} {d : Datagram} (h : Datagram.decode a.raw = .ok d)
    (htype : d.header.packetType ≠ .feedback) : a.IsMedia := by
  intro d' h'
  cases h.symm.trans h'
  exact htype

theorem Apart.symm {a b : Inbound} (h : a.Apart b) : b.Apart a :=
  fun origin hb ha => h origin ha hb

theorem origin?_of_decode {a : Inbound} {d : Datagram} (h : Datagram.decode a.raw = .ok d) :
    a.origin? = some (d.header.room, d.header.sender) := by
  rw [origin?, h]
  rfl

end Inbound

namespace Directory

theorem withRoom_withRoom_self (dir : Directory F) (id : RoomId) (r r' : Room F) :
    (dir.withRoom id r).withRoom id r' = dir.withRoom id r' := by
  simp only [withRoom, Table.insert_insert_self]

theorem withRoom_comm (dir : Directory F) {id id' : RoomId} (r r' : Room F) (h : id ≠ id') :
    (dir.withRoom id r).withRoom id' r' = (dir.withRoom id' r').withRoom id r := by
  simp only [withRoom, Table.insert_comm _ _ _ h]

variable [Arithmetic F]

/-- Takes in bytes, whatever they are. -/
def takeIn (dir : Directory F) (h : Hysteresis F) (a : Inbound) :
    Directory F × Except DropReason Outcome :=
  match Datagram.decode a.raw with
  | .error fault => (dir, .error (Relay.dropReasonOf fault))
  | .ok d =>
    match dir.room? d.header.room with
    | none => (dir, .error (if d.header.sender.isRelay then .unknownSender else .unknownRoom))
    | some room => (dir.withRoom d.header.room (room.takeIn h d a).1, (room.takeIn h d a).2)

section TakeIn

variable {dir : Directory F} {h : Hysteresis F} {a : Inbound} {d : Datagram}

theorem takeIn_of_fault {fault : Wire.Fault} (hdecode : Datagram.decode a.raw = .error fault) :
    dir.takeIn h a = (dir, .error (Relay.dropReasonOf fault)) := by
  rw [takeIn, hdecode]

theorem takeIn_of_noRoom (hdecode : Datagram.decode a.raw = .ok d)
    (hnone : dir.room? d.header.room = none) :
    dir.takeIn h a =
      (dir, .error (if d.header.sender.isRelay then .unknownSender else .unknownRoom)) := by
  simp only [takeIn, hdecode, hnone]

theorem takeIn_of_room (hdecode : Datagram.decode a.raw = .ok d) {room : Room F}
    (hroom : dir.room? d.header.room = some room) :
    dir.takeIn h a = (dir.withRoom d.header.room (room.takeIn h d a).1, (room.takeIn h d a).2) := by
  simp only [takeIn, hdecode, hroom]

theorem takeIn_room?_none {id : RoomId} (hnone : dir.room? id = none) :
    (dir.takeIn h a).1.room? id = none := by
  unfold takeIn
  split
  · exact hnone
  · split
    · exact hnone
    · rename_i room hroom
      rwa [room?_withRoom_of_ne]
      rintro rfl
      cases hnone.symm.trans hroom

theorem takeIn_independent (hdir : dir.Sound) (h : Hysteresis F) {a b : Inbound} (ha : a.IsMedia)
    (hb : b.IsMedia) (hab : a.Apart b) : Independent dir (·.takeIn h a) (·.takeIn h b) := by
  cases hd : Datagram.decode a.raw with
  | error fault => exact .of_idle (takeIn_of_fault hd) (takeIn_of_fault hd)
  | ok d =>
  cases he : Datagram.decode b.raw with
  | error fault => exact .symm (.of_idle (takeIn_of_fault he) (takeIn_of_fault he))
  | ok e =>
  cases hroom : dir.room? d.header.room with
  | none =>
    exact .of_idle (takeIn_of_noRoom hd hroom)
      (takeIn_of_noRoom hd (takeIn_room?_none hroom))
  | some room =>
  cases hroom' : dir.room? e.header.room with
  | none =>
    exact .symm (.of_idle (takeIn_of_noRoom he hroom')
      (takeIn_of_noRoom he (takeIn_room?_none hroom')))
  | some room' =>
  have hfirst := takeIn_of_room (h := h) hd hroom
  have hsecond := takeIn_of_room (h := h) he hroom'
  -- one room, where the senders differ, or two rooms, whose entries are written one by one
  by_cases hsame : d.header.room = e.header.room
  · have hrooms : room = room' := Option.some.inj (hroom.symm.trans (hsame ▸ hroom'))
    subst hrooms
    have hne : d.header.sender ≠ e.header.sender := fun hsender =>
      hab _ (Inbound.origin?_of_decode hd)
        ((Inbound.origin?_of_decode he).trans (by rw [hsame, hsender]))
    have hswap := (hdir _ _ hroom).takeIn_independent h (ha d hd) (hb e he) hne a b
    have hthen := takeIn_of_room (h := h) he
      ((congrArg _ hsame.symm).trans (room?_withRoom_self dir _ (room.takeIn h d a).1))
    have hthen' := takeIn_of_room (h := h) hd
      ((congrArg _ hsame).trans (room?_withRoom_self dir _ (room.takeIn h e b).1))
    rw [hsame] at hfirst hthen hthen'
    refine ⟨?_, ?_, ?_⟩
    · simp only [hfirst, hsecond, hthen, hthen', withRoom_withRoom_self, hswap.state]
    · simp only [hfirst, hsecond, hthen', hswap.first]
    · simp only [hfirst, hsecond, hthen, hswap.second]
  · have hthen := takeIn_of_room (h := h) he
      ((room?_withRoom_of_ne dir (room.takeIn h d a).1 (Ne.symm hsame)).trans hroom')
    have hthen' := takeIn_of_room (h := h) hd
      ((room?_withRoom_of_ne dir (room'.takeIn h e b).1 hsame).trans hroom)
    refine ⟨?_, ?_, ?_⟩
    · simp only [hfirst, hsecond, hthen, hthen', withRoom_comm _ _ _ hsame]
    · simp only [hfirst, hsecond, hthen']
    · simp only [hfirst, hsecond, hthen]

end TakeIn

end Directory

namespace Relay

variable [Arithmetic F] {r : Relay F}

theorem dispatch_eq_takeIn {d : Directory F} (hd : d.Sound) (h : Hysteresis F) {a : Inbound}
    {datagram : Datagram} (hdecode : Datagram.decode a.raw = .ok datagram) :
    dispatch d h datagram a.raw a.source a.time = d.takeIn h a := by
  have hversion := Datagram.decode_version hdecode
  cases hroom : d.room? datagram.header.room with
  | none =>
    rw [Directory.takeIn_of_noRoom hdecode hroom, dispatch, hroom]
    split <;> simp_all
  | some room =>
    rw [Directory.takeIn_of_room hdecode hroom]
    by_cases hm : room.members.contains datagram.header.sender
    · rw [dispatch_of_member hd h a.raw a.source a.time hroom hm hversion, Room.takeIn, if_pos hm]
      rfl
    · have hkept := hd _ _ hroom
      have hpresence : room.presence.contains datagram.header.sender = false :=
        (hkept.presence _).trans (Bool.eq_false_iff.mpr hm)
      have hsame : d.withRoom datagram.header.room room = d := by
        rw [Directory.withRoom, Table.insert_eq_self hroom]
      rw [Room.takeIn, if_neg hm, hsame, dispatch]
      simp only [hroom, hkept.protocol, hversion, Room.touch, hpresence]
      split <;> rfl

/-- The answer to bytes that come in. -/
def answerTo (r : Relay F) (a : Inbound) : Except DropReason Outcome :=
  (r.directory.takeIn r.settings.hysteresis a).2

/-- The relay after media came in. -/
def after (r : Relay F) (a : Inbound) : Relay F :=
  { r with
    directory := (r.directory.takeIn r.settings.hysteresis a).1
    counters := countMedia r.counters a.raw.length (r.answerTo a) }

theorem receive_media (hr : r.directory.Sound) {a : Inbound} (ha : a.IsMedia) :
    r.receive a.raw a.source a.time = (r.after a, r.answerTo a) := by
  unfold receive after answerTo
  cases hdecode : Datagram.decode a.raw with
  | error fault => rw [Directory.takeIn_of_fault hdecode, countMedia]
  | ok d =>
    simp only [dispatch_eq_takeIn hr _ hdecode, countAnswer_of_media _ _ (ha d hdecode)]

section Two

variable {a b : Inbound}

theorem answerTo_after (hr : r.directory.Sound) (ha : a.IsMedia) (hb : b.IsMedia)
    (hab : a.Apart b) : (r.after b).answerTo a = r.answerTo a :=
  (Directory.takeIn_independent hr r.settings.hysteresis ha hb hab).first

theorem after_comm (hr : r.directory.Sound) (ha : a.IsMedia) (hb : b.IsMedia) (hab : a.Apart b) :
    (r.after a).after b = (r.after b).after a := by
  have hdirectory : ((r.after a).after b).directory = ((r.after b).after a).directory :=
    (Directory.takeIn_independent hr r.settings.hysteresis ha hb hab).state
  have hcounters : ((r.after a).after b).counters = ((r.after b).after a).counters := by
    show countMedia (countMedia r.counters _ (r.answerTo a)) _ ((r.after a).answerTo b) =
      countMedia (countMedia r.counters _ (r.answerTo b)) _ ((r.after b).answerTo a)
    rw [answerTo_after hr ha hb hab, answerTo_after hr hb ha hab.symm, countMedia_comm]
  show (⟨r.settings, ((r.after a).after b).directory, ((r.after a).after b).counters⟩ : Relay F) =
    ⟨r.settings, ((r.after b).after a).directory, ((r.after b).after a).counters⟩
  rw [hdirectory, hcounters]

/-- Takes in a datagram and gives what is sent for it. -/
def arrive (r : Relay F) (a : Inbound) : Relay F × List Egress :=
  r.step a.time (.datagram a.raw a.source)

theorem sound_arrive (hr : r.directory.Sound) (a : Inbound) : (r.arrive a).1.directory.Sound :=
  sound_step hr a.time (.datagram a.raw a.source)

theorem arrive_media (hr : r.directory.Sound) (ha : a.IsMedia) :
    r.arrive a = (r.after a, ((r.answerTo a).toOption.map (·.egress)).getD []) := by
  rw [arrive, step_datagram, receive_media hr ha]

theorem arrive_independent (hr : r.directory.Sound) (ha : a.IsMedia) (hb : b.IsMedia)
    (hab : a.Apart b) : Independent r (·.arrive a) (·.arrive b) := by
  have hra := sound_arrive hr a
  have hrb := sound_arrive hr b
  rw [arrive_media hr ha] at hra
  rw [arrive_media hr hb] at hrb
  refine ⟨?_, ?_, ?_⟩
  · simp only [arrive_media hr ha, arrive_media hr hb, arrive_media hra hb, arrive_media hrb ha,
      after_comm hr ha hb hab]
  · simp only [arrive_media hr ha, arrive_media hr hb, arrive_media hrb ha,
      answerTo_after hr ha hb hab]
  · simp only [arrive_media hr ha, arrive_media hr hb, arrive_media hra hb,
      answerTo_after hr hb ha hab.symm]

end Two

/-- Takes in datagrams in an order, and notes for each what is sent for it. -/
def receiveAll {ι : Type} (r : Relay F) (inbound : ι → Inbound) :
    List ι → Relay F × List (ι × List Egress)
  | [] => (r, [])
  | i :: rest =>
    let (r, egress) := r.arrive (inbound i)
    let (r, others) := r.receiveAll inbound rest
    (r, (i, egress) :: others)

variable {ι : Type} {inbound : ι → Inbound}

theorem receiveAll_cons (r : Relay F) (inbound : ι → Inbound) (i : ι) (rest : List ι) :
    r.receiveAll inbound (i :: rest) =
      (((r.arrive (inbound i)).1.receiveAll inbound rest).1,
        (i, (r.arrive (inbound i)).2) ::
          ((r.arrive (inbound i)).1.receiveAll inbound rest).2) := rfl

/-- A datagram can come before all those of other senders. -/
theorem receiveAll_front (hr : r.directory.Sound) {i : ι} {others : List ι} (rest : List ι)
    (hi : (inbound i).IsMedia) (hmedia : ∀ j ∈ others, (inbound j).IsMedia)
    (hapart : ∀ j ∈ others, (inbound j).Apart (inbound i)) :
    (r.receiveAll inbound (others ++ i :: rest)).1 =
        (r.receiveAll inbound (i :: (others ++ rest))).1 ∧
      (r.receiveAll inbound (others ++ i :: rest)).2.Perm
        (r.receiveAll inbound (i :: (others ++ rest))).2 := by
  induction others generalizing r with
  | nil => exact ⟨rfl, .refl _⟩
  | cons j others ih =>
    obtain ⟨hj, hmedia⟩ := List.forall_mem_cons.mp hmedia
    obtain ⟨hji, hapart⟩ := List.forall_mem_cons.mp hapart
    obtain ⟨hstate, hperm⟩ := ih (sound_arrive hr (inbound j)) hmedia hapart
    obtain ⟨hswap, hfirst, hsecond⟩ := arrive_independent hr hj hi hji
    rw [receiveAll_cons] at hstate hperm
    simp only [List.cons_append, receiveAll_cons]
    refine ⟨hstate.trans (by rw [hswap]), (hperm.cons _).trans ?_⟩
    rw [hswap, hfirst, hsecond]
    exact .swap _ _ _

/-- The order of each sender's datagrams decides the state of the relay and what is sent for each
datagram. -/
theorem Reachable.receiveAll_reorder (h : r.Reachable) {order order' : List ι}
    (hmedia : ∀ i ∈ order, (inbound i).IsMedia) (hperm : order.Perm order')
    (hsenders : ∀ origin, (order.filter fun i => (inbound i).origin? = some origin) =
      order'.filter fun i => (inbound i).origin? = some origin) :
    (r.receiveAll inbound order).1 = (r.receiveAll inbound order').1 ∧
      (r.receiveAll inbound order).2.Perm (r.receiveAll inbound order').2 := by
  induction order generalizing r order' with
  | nil =>
    rw [List.nil_perm.mp hperm]
    exact ⟨rfl, .refl _⟩
  | cons i rest ih =>
    -- in the other order `i` comes to the front, and the rest is by induction
    obtain ⟨hi, hmedia⟩ := List.forall_mem_cons.mp hmedia
    obtain ⟨others, later, rfl, hfirst⟩ :=
      List.eq_append_cons_of_mem (hperm.subset List.mem_cons_self)
    obtain ⟨hapart, hsenders⟩ := front_of_filter_eq hfirst hsenders
    have hrest : rest.Perm (others ++ later) := (hperm.trans List.perm_middle).cons_inv
    have hothers : ∀ j ∈ others, (inbound j).IsMedia := fun j hj =>
      hmedia j (hrest.symm.subset (List.mem_append_left later hj))
    obtain ⟨hstate, hegress⟩ := receiveAll_front h.sound later hi hothers hapart
    obtain ⟨hstate', hegress'⟩ := ih (h.step (inbound i).time _) hmedia hrest hsenders
    rw [receiveAll_cons]
    rw [receiveAll_cons] at hstate hegress
    exact ⟨hstate'.trans hstate.symm, (hegress'.cons _).trans hegress.symm⟩

/-- Two packets of participant 1, and one of participant 2, who sends no video. -/
theorem receiveAll_reorder_two_senders :
    let r := callOfTwo [⟨.base, 200000⟩]
    let d := videoPacket 0 0 .base []
    let e := videoPacket 1 1 .base [1]
    let stray := { d with header := { d.header with sender := ⟨2⟩ } }
    let a : Inbound := ⟨wireBytes d, anyEndpoint, 1⟩
    let b : Inbound := ⟨wireBytes e, anyEndpoint, 2⟩
    let c : Inbound := ⟨wireBytes stray, anyEndpoint, 3⟩
    (r.receiveAll id [a, b, c]).1 = (r.receiveAll id [c, a, b]).1 ∧
      (r.receiveAll id [a, b, c]).2.Perm (r.receiveAll id [c, a, b]).2 ∧
      (r.receiveAll id [c, a, b]).2 =
        [(c, []), (a, [⟨⟨7⟩, ⟨2⟩, a.raw⟩]), (b, [⟨⟨7⟩, ⟨2⟩, b.raw⟩])] := by
  intro r d e stray a b c
  have ha : Datagram.decode a.raw = .ok d := Guard.eq_ok_of_toOption (by decide +kernel)
  have hb : Datagram.decode b.raw = .ok e := Guard.eq_ok_of_toOption (by decide +kernel)
  have hc : Datagram.decode c.raw = .ok stray := Guard.eq_ok_of_toOption (by decide +kernel)
  have hmedia : ∀ i ∈ [a, b, c], (id i).IsMedia := by
    simp only [List.forall_mem_cons]
    exact ⟨Inbound.isMedia_of_decode ha nofun, Inbound.isMedia_of_decode hb nofun,
      Inbound.isMedia_of_decode hc nofun, nofun⟩
  have hperm : [a, b, c].Perm [c, a, b] := by decide +kernel
  have hsenders (origin : RoomId × ParticipantId) :
      ([a, b, c].filter fun i => (id i).origin? = some origin) =
        [c, a, b].filter fun i => (id i).origin? = some origin := by
    have hab : b.origin? = a.origin? := by
      rw [Inbound.origin?_of_decode ha, Inbound.origin?_of_decode hb]
      rfl
    have hac : a.origin? = some origin → c.origin? ≠ some origin := by
      rw [Inbound.origin?_of_decode ha, Inbound.origin?_of_decode hc]
      rintro ⟨⟩
      decide
    simp only [List.filter_cons, id, hab, List.filter_nil]
    by_cases ho : a.origin? = some origin
    · simp [ho, hac ho]
    · simp [ho]
  obtain ⟨hstate, hegress⟩ :=
    (callOfTwo_reachable [⟨.base, 200000⟩]).receiveAll_reorder hmedia hperm hsenders
  exact ⟨hstate, hegress, by decide +kernel⟩

end Relay

end MediaRelay
