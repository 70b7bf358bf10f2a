import MediaRelay.Proofs.Wire.Canonical
import MediaRelay.Sharding

/-!
Which worker a datagram goes to. Room and sender are found at their places without a look at
anything else, and they are the ones that the whole datagram is read to name
(`Datagram.route?_of_decode`). So the datagrams of one sender in one room go to one worker, whatever
else they hold (`Sharding.decoded_share_worker`).
-/

namespace MediaRelay

open Wire.Word

namespace Header

/-- Room and sender stand behind four bytes, in four bytes each. -/
theorem route?_octets (h : Header) (rest : Bytes) :
    route? (h.octets ++ rest) = some (h.room, h.sender) := by
  have hlong : ¬(h.octets ++ rest).length < size := by
    simp only [octets, List.length_append, List.length_cons, List.length_nil, length_bytes, size]
    omega
  have hroom : ((h.octets ++ rest).drop 4).take 4 = bytes 4 h.room.number.toNat := rfl
  have hsender : ((h.octets ++ rest).drop 8).take 4 = bytes 4 h.sender.number.toNat := rfl
  rw [route?, if_neg hlong, hroom, hsender, u32_bytes, u32_bytes]

end Header

namespace Datagram

/-- The route of a datagram that can be read is the room and the sender it is read to name. -/
theorem route?_of_decode {b : Bytes} {d : Datagram} (h : decode b = .ok d) :
    Header.route? b = some (d.header.room, d.header.sender) := by
  obtain ⟨-, -, front, middle, hfront, -, rfl⟩ := encode_eq_ok_iff.mp (decode_eq_ok_iff.mp h).2
  obtain ⟨-, -, rfl⟩ := Header.encode_eq_ok_iff.mp hfront
  rw [List.append_assoc]
  exact Header.route?_octets d.header _

end Datagram

namespace Sharding

theorem workerOf_lt (raw : Bytes) (workers : Nat) : workerOf raw workers < max workers 1 := by
  have hsome : 0 < max workers 1 := Nat.le_max_right workers 1
  unfold workerOf
  split
  · exact hsome
  · exact Nat.mod_lt _ hsome

theorem workerOf_of_route {raw : Bytes} {room : RoomId} {sender : ParticipantId}
    (h : Header.route? raw = some (room, sender)) (workers : Nat) :
    workerOf raw workers =
      (hash (room.number.toUInt64 ||| sender.number.toUInt64 <<< 32)).toNat % max workers 1 := by
  rw [workerOf, h]

/-- The route of a datagram that can be read names its room and its sender. Two of one room and one
sender go to one worker, of however many, and any bytes at all go to a worker that there is. -/
theorem decoded_share_worker :
    (∀ b d, Datagram.decode b = .ok d →
      Header.route? b = some (d.header.room, d.header.sender)) ∧
    (∀ b₁ b₂ d₁ d₂, Datagram.decode b₁ = .ok d₁ → Datagram.decode b₂ = .ok d₂ →
      d₁.header.room = d₂.header.room → d₁.header.sender = d₂.header.sender →
      ∀ workers, workerOf b₁ workers = workerOf b₂ workers) ∧
    ∀ raw workers, workerOf raw workers < max workers 1 := by
  refine ⟨fun b d => Datagram.route?_of_decode, ?_, workerOf_lt⟩
  intro b₁ b₂ d₁ d₂ h₁ h₂ hroom hsender workers
  have hroute := Datagram.route?_of_decode h₁
  rw [hroom, hsender] at hroute
  rw [workerOf_of_route hroute, workerOf_of_route (Datagram.route?_of_decode h₂)]

/-- Silence in audio, and video that refers three frames back, from one sender. -/
theorem decoded_share_worker_audio_video :
    let audio : Datagram :=
      { header := ⟨protocolVersion, .audio, .opus, ⟨0⟩, ⟨7⟩, ⟨65537⟩, 9, 480, ⟨0, 0⟩, true⟩
        descriptor := none
        payload := [] }
    let video : Datagram :=
      { header := ⟨protocolVersion, .video, .vp9, ⟨0x10⟩, ⟨7⟩, ⟨65537⟩, 258, 90000, ⟨1, 0⟩, false⟩
        descriptor := some ⟨true, true, 5, 260, 3, some [3]⟩
        payload := [42] }
    let a : Bytes :=
      [1, 0, 1, 0, 0, 0, 0, 7, 0, 1, 0, 1, 0, 0, 0, 9, 0, 0, 1, 0xE0, 0, 0x80]
    let v : Bytes :=
      [1, 1, 3, 0x10, 0, 0, 0, 7, 0, 1, 0, 1, 0, 0, 1, 2, 0, 1, 0x5F, 0x90, 0x10, 0,
        0xC5, 1, 4, 3, 0x81, 0, 3, 42]
    Datagram.decode a = .ok audio ∧ Datagram.decode v = .ok video ∧
      Header.route? a = some (⟨7⟩, ⟨65537⟩) ∧ (∀ workers, workerOf a workers = workerOf v workers) ∧
      workerOf v 8 < 8 := by
  intro audio video a v
  have ha : Datagram.decode a = .ok audio := Guard.eq_ok_of_toOption (by decide +kernel)
  have hv : Datagram.decode v = .ok video := Guard.eq_ok_of_toOption (by decide +kernel)
  obtain ⟨hroute, hshare, hlt⟩ := decoded_share_worker
  exact ⟨ha, hv, hroute a audio ha, hshare a v audio video ha hv rfl rfl, hlt v 8⟩

end Sharding

end MediaRelay
