/-
# `Framing` — do messages survive the stream?

A `Transfer` is a list of messages, sent as their images one after the other,
and a way the stream brings the bytes to a thread: what the thread's polls
answer while the connection lasts.  Both threads take what one receive brings
for a message.  `Transfer.handed_iff` says of any such reader when this is right:
each time it was a whole message (`Transfer.Whole`).
-/
import ChatSocket.Server.Thread
import ChatSocket.Client.IoThread

namespace ChatSocket

open Kit

/-- A message and the padding it is sent with. -/
abbrev Sent := Msg × Buf 3

/-- The messages sent, and the polls of the thread that receives them. -/
structure Transfer (π : Type) (chunk? : π → Option (Chunk sizeofMsg)) (Calm : π → Prop) where
  sent : List Sent
  polls : List π
  calm : ∀ p ∈ polls, Calm p
  joined : ((polls.filterMap chunk?).map Chunk.bytes).flatten
    = (sent.map fun s => s.1.image s.2).flatten

/-- A transfer to `client_thread`. -/
abbrev ToServer := Transfer Poll Poll.chunk? Poll.Calm

/-- A transfer to `io_thread`. -/
abbrev ToClient := Transfer IoPoll IoPoll.chunk? IoPoll.Calm

namespace Transfer

variable {π : Type} {chunk? : π → Option (Chunk sizeofMsg)} {Calm : π → Prop}

def msgs (t : Transfer π chunk? Calm) : List Msg := t.sent.map Prod.fst

def images (t : Transfer π chunk? Calm) : List (List UInt8) := t.sent.map fun s => s.1.image s.2

def chunks (t : Transfer π chunk? Calm) : List (List UInt8) :=
  (t.polls.filterMap chunk?).map Chunk.bytes

/-- Every receive brings a whole message. -/
def Whole (t : Transfer π chunk? Calm) : Prop := ∀ c ∈ t.chunks, c.length = sizeofMsg

theorem chunking (t : Transfer π chunk? Calm) : Chunking sizeofMsg t.images t.chunks where
  whole := by
    intro f hf
    obtain ⟨s, -, rfl⟩ := List.mem_map.mp hf
    exact s.1.length_image s.2
  bounded := by
    intro c hc
    obtain ⟨chunk, -, rfl⟩ := List.mem_map.mp hc
    exact ⟨chunk.nonempty, chunk.bounded⟩
  joined := t.joined

/-- A reader that hands on one message a chunk, and the right one for a whole image, is right
exactly if every receive brings a whole message. -/
theorem handed_iff (t : Transfer π chunk? Calm) (handed : List (List UInt8) → List Msg)
    (hlen : ∀ chunks, (handed chunks).length = chunks.length)
    (himages : handed t.images = t.msgs) : handed t.chunks = t.msgs ↔ t.Whole := by
  have hpos : 0 < sizeofMsg := by decide
  constructor
  · intro heq
    refine (t.chunking.count_iff hpos).mp ?_
    calc t.chunks.length
        = (handed t.chunks).length := (hlen _).symm
      _ = t.msgs.length := congrArg List.length heq
      _ = t.images.length := by rw [msgs, images, List.length_map, List.length_map]
  · intro hwhole
    rw [(t.chunking.eq_frames_iff hpos).mpr hwhole]
    exact himages

end Transfer

/-- Images received one by one are the messages, whatever was in the memory before. -/
theorem recvAll_images (sent : List Sent) :
    ∀ rxMsg : MsgMem, (recvAll rxMsg (sent.map fun s => s.1.image s.2)).map MsgMem.msg
      = sent.map Prod.fst := by
  induction sent with
  | nil => exact fun _ => rfl
  | cons s sent ih =>
      intro rxMsg
      rw [List.map_cons, recvAll, List.map_cons, msg_recvInto_image, ih, List.map_cons]

/-- The server hands on what was sent exactly if every receive brings a whole message; so does
the client, to the program as to the library, whatever memory `rx_msg` starts with. -/
theorem framing_survives_iff (mySocket : Int) (s : ToServer) (rxMsg : MsgMem) (c : ToClient) :
    ((clientThreadLoop mySocket s.polls).filterMap Event.msg? = s.msgs ↔ s.Whole) ∧
    ((ioThreadLoop rxMsg c.polls).filterMap Call.cbMsg? = c.msgs ↔ c.Whole) ∧
    ((ioThreadLoop rxMsg c.polls).filterMap Call.libMsg? = c.msgs ↔ c.Whole) := by
  have hserver : s.chunks.map (fun chunk => (recvInto (.zero _) chunk).msg) = s.msgs ↔ s.Whole := by
    refine s.handed_iff (List.map fun chunk => (recvInto (.zero _) chunk).msg)
      (fun chunks => List.length_map _) ?_
    rw [Transfer.images, List.map_map]
    exact List.map_congr_left fun sent _ => msg_recvInto_image _ sent.1 sent.2
  have hclient : (recvAll rxMsg c.chunks).map MsgMem.msg = c.msgs ↔ c.Whole :=
    c.handed_iff (fun chunks => (recvAll rxMsg chunks).map MsgMem.msg)
      (fun chunks => by rw [List.length_map, length_recvAll]) (recvAll_images c.sent rxMsg)
  obtain ⟨hcb, hlib⟩ := msgs_ioThreadLoop c.calm rxMsg
  refine ⟨?_, ?_, ?_⟩
  · rw [msgs_clientThreadLoop mySocket s.calm]
    exact hserver
  · rw [hcb]
    exact hclient
  · rw [hlib]
    exact hclient

/-- `get_list`, as the client sends it. -/
def listRequest : Sent := (.ofType .getClientListType, .zero 3)

/-- The request, of which the first receive brings four bytes. -/
def splitRequest : ToServer where
  sent := [listRequest]
  polls :=
    [.input (.bytes ⟨(listRequest.1.image listRequest.2).take 4, by decide, by decide⟩),
     .input (.bytes
       ⟨(listRequest.1.image listRequest.2).drop 4, by decide +kernel, by decide +kernel⟩)]
  calm := by simp [Poll.Calm]
  joined := by decide +kernel

/-- The server takes the two pieces for two messages. -/
theorem request_split_in_two :
    ¬ ∀ (mySocket : Int) (s : ToServer),
      (clientThreadLoop mySocket s.polls).filterMap Event.msg? = s.msgs := by
  intro h
  exact absurd (congrArg List.length (h 4 splitRequest)) (by decide +kernel)

end ChatSocket
