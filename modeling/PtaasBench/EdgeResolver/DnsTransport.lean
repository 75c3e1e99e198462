import PtaasBench.EdgeResolver.DnsListener

/-!
# PtaasBench.EdgeResolver.DnsTransport — the same reply on both transports (`listeners/dns.py`)

`build_response` does not know the transport it builds for: a message of more than 512 bytes is cut to
its header and question over TCP as well, where the client comes for what was left out.
-/

namespace PtaasBench.EdgeResolver.DnsListener

open Py Lib DnsWire

/-- A message on a stream, behind its length. -/
def frame (message : Bytes) : Bytes := beBytes 2 message.length ++ message

namespace DnsHandler

variable [Runtime] (handler : DnsHandler)

/-- The loop of `handle_tcp`, on all the bytes of a connection: what is written, message by message.  Every
turn takes a length off the stream, so a turn for each byte is enough. -/
def tcpReplies (peerIp : String) : ℕ → Bytes → List Bytes
  | 0, _ => []
  | turns + 1, stream =>
    if stream.length < 2 then []
    else
      let length := word stream 0
      if length = 0 then []
      else if stream.length < 2 + length then []
      else
        match handler.handle (slice stream 2 (2 + length)) peerIp with
        | .error _ => []  -- logged, and the connection is closed
        | .ok response =>
          -- `to_bytes(2, "big")` raises on a longer one
          if response.length < 65536 then frame response :: tcpReplies peerIp turns (stream.drop (2 + length))
          else []

/-- `handle_tcp` -/
def handleTcp (peerIp : String) (stream : Bytes) : List Bytes := handler.tcpReplies peerIp stream.length stream

/-- The answers of a reply are all the handler resolved, and nothing says that some are missing. -/
def Complete (data : Bytes) (peerIp : String) (reply : Bytes) : Prop :=
  truncated reply = false ∧
    ∃ query args response, parseQuery data = .ok query ∧ handler.replyArgs query peerIp = .ok args ∧
      parseResponse reply = .ok response ∧
      ∀ a ∈ args.answers, ∃ r ∈ response.answers, r.rrtype = a.1 ∧ r.rdata = a.2

/-- A query that is sent again over TCP is answered in full. -/
def Recovers (data : Bytes) (peerIp : String) : Prop :=
  ∃ reply, (handler.handleTcp peerIp (frame data)).head? = some (frame reply) ∧ handler.Complete data peerIp reply

end DnsHandler

theorem word_frame {message : Bytes} (h : message.length < 65536) : word (frame message) 0 = message.length := by
  rw [frame, ← List.nil_append (beBytes 2 message.length ++ message)]
  exact word_append h rfl

theorem slice_frame (message : Bytes) : slice (frame message) 2 (2 + message.length) = message := by
  have hwhole : frame message = beBytes 2 message.length ++ (message ++ []) := by rw [List.append_nil, frame]
  rw [hwhole]
  exact slice_append (length_beBytes 2 _).symm (by rw [length_beBytes])

theorem frame_inj {a b : Bytes} (h : frame a = frame b) : a = b :=
  (List.append_inj h (by rw [length_beBytes, length_beBytes])).2

/-- What the connection answers first is what a datagram with the message gets. -/
theorem head_handleTcp [Runtime] (handler : DnsHandler) {data reply : Bytes} {peerIp : String}
    (hdata : data.length < 65536) (h : handler.handle data peerIp = .ok reply) {first : Bytes}
    (hfirst : (handler.handleTcp peerIp (frame data)).head? = some first) : first = frame reply := by
  have hlength : (frame data).length = 1 + data.length + 1 := by
    rw [frame, List.length_append, length_beBytes]
    omega
  rw [DnsHandler.handleTcp, hlength, DnsHandler.tcpReplies] at hfirst
  dsimp only at hfirst
  rw [word_frame hdata, slice_frame, h] at hfirst
  split_ifs at hfirst with hshort hnone hlack
  · cases hfirst
  · cases hfirst
  · cases hfirst
  · dsimp only at hfirst
    split_ifs at hfirst
    · exact (Option.some.inj hfirst).symm
    · cases hfirst

/-- A query whose reply is cut is answered in the same way over TCP, and never in full. -/
theorem truncation_never_recovers [Runtime] (handler : DnsHandler) {data reply : Bytes} {peerIp : String}
    (hdata : data.length < 65536) (h : handler.handle data peerIp = .ok reply) (htc : truncated reply = true) :
    ¬ handler.Recovers data peerIp := by
  rintro ⟨again, hagain, hfull, -⟩
  rw [frame_inj (head_handleTcp handler hdata h hagain), htc] at hfull
  cases hfull

/-- A resolver whose upstream has many addresses for every name. -/
def manyAddresses : DnsHandler where
  ownedZone := "edge.test"
  upstream := some fun _ _ => { claimed := true, addresses := List.replicate 32 "10.88.0.2" }
  answerIp _ := "10.88.0.2"
  inetAton _ := .ok [10, 88, 0, 2]

theorem manyAddresses_reply :
    let _ := Runtime.ascii
    (manyAddresses.handle (addressQuestion 1) "10.88.0.9").map (fun r => (r.length, truncated r)) =
      .ok (81, true) := by
  decide +kernel

/-- Thirty-two addresses are left out of both replies. -/
theorem manyAddresses_never_recovers :
    let _ := Runtime.ascii
    ¬ manyAddresses.Recovers (addressQuestion 1) "10.88.0.9" := by
  intro _
  obtain ⟨reply, hreply, -, htc⟩ := exists_reply manyAddresses_reply
  exact truncation_never_recovers manyAddresses (by decide) hreply htc

/-- The question comes back over TCP, and its reply is as empty as the first. -/
theorem cut_over_tcp :
    let _ := Runtime.ascii
    ∃ reply, manyAddresses.handle (addressQuestion 1) "10.88.0.9" = .ok reply ∧ truncated reply = true ∧
      (manyAddresses.handleTcp "10.88.0.9" (frame (addressQuestion 1))).head? = some (frame reply) ∧
      ¬ manyAddresses.Recovers (addressQuestion 1) "10.88.0.9" := by
  intro _
  obtain ⟨reply, hreply, hlength, htc⟩ := exists_reply manyAddresses_reply
  have hdata : (addressQuestion 1).length < 65536 := by decide
  obtain ⟨first, hfirst⟩ : ∃ first,
      (manyAddresses.handleTcp "10.88.0.9" (frame (addressQuestion 1))).head? = some first := by
    have hlen : (frame (addressQuestion 1)).length = 82 + 1 := by decide
    rw [DnsHandler.handleTcp, hlen, DnsHandler.tcpReplies]
    dsimp only
    rw [word_frame hdata, slice_frame, hreply, hlen]
    dsimp only
    rw [hlength, if_neg (by decide), if_neg (by decide), if_neg (by decide), if_pos (by decide)]
    exact ⟨_, rfl⟩
  obtain rfl := head_handleTcp manyAddresses hdata hreply hfirst
  refine ⟨reply, hreply, htc, hfirst, ?_⟩
  rintro ⟨again, hagain, hfull, -⟩
  rw [frame_inj (head_handleTcp manyAddresses hdata hreply hagain), htc] at hfull
  cases hfull

end PtaasBench.EdgeResolver.DnsListener
