import Netpp.Connection.Steps
import Netpp.Socket.FirstNode

/-!
# Sending on a writable socket

The kernel takes at most `UIO_MAXIOV` stretches in one call of `sendmsg`. The reader
of a byte array makes a stretch for each node that holds unread bytes, and there is no
bound on their number. What the kernel refuses with `EMSGSIZE` is returned as `-1`, as
if the socket were not ready: the connection goes on waiting for `EPOLLOUT`, which comes
at once, and nothing is ever sent.
-/

namespace Netpp

/-- The most stretches that the kernel takes. -/
def uioMaxIov : Nat := 1024

/-- The answers of the kernel to `sendmsg` on a writable socket. -/
structure WritableSocket where
  answer : List IOVec → Answer Nat
  /-- Too many stretches are refused. -/
  refuses : ∀ vec, uioMaxIov < vec.length → answer vec = .failed .EMSGSIZE
  /-- Otherwise at least one byte is accepted. -/
  accepts : ∀ vec, vec.length ≤ uioMaxIov → 0 < capacity vec →
    ∃ count, answer vec = .done count ∧ 1 ≤ count ∧ count ≤ capacity vec

/-- The number of nodes that hold unread bytes. -/
def filled (nodes : List BufferNode) : Nat := nodes.countP fun n => n.start < n.stop

/-! ## The number of stretches -/

theorem filled_append (xs ys : List BufferNode) : filled (xs ++ ys) = filled xs + filled ys :=
  List.countP_append

theorem filled_eq_zero {nodes : List BufferNode} (h : content nodes = [])
    (hstop : ∀ n ∈ nodes, n.stop ≤ 1024) : filled nodes = 0 := by
  refine List.countP_eq_zero.mpr fun n hn hfilled => ?_
  have hlength := BufferNode.unread_length (hstop n hn)
  rw [List.flatMap_eq_nil_iff.mp h n hn, List.length_nil] at hlength
  simp only [decide_eq_true_eq] at hfilled
  omega

/-- Each node holds at most 1024 bytes. -/
theorem content_length_le {nodes : List BufferNode} (hstop : ∀ n ∈ nodes, n.stop ≤ 1024) :
    (content nodes).length ≤ 1024 * filled nodes := by
  induction nodes with
  | nil => exact Nat.zero_le _
  | cons n nodes ih =>
      have hn := hstop n (List.mem_cons_self ..)
      have hrest := ih fun m hm => hstop m (List.mem_cons_of_mem _ hm)
      rw [content_cons, List.length_append, BufferNode.unread_length hn, filled, List.countP_cons]
      change _ ≤ 1024 * (filled nodes + _)
      by_cases hfilled : n.start < n.stop
      · rw [if_pos (decide_eq_true hfilled)]
        omega
      · rw [if_neg (by simpa using hfilled)]
        omega

theorem iovecLoop_length {i : Nat} {nodes : List BufferNode}
    (h : ∀ n ∈ nodes, n.start ≤ n.stop ∧ n.stop ≤ 1024) :
    (ByteArrayReaderWithLock.iovecLoop i nodes).length = filled nodes := by
  induction nodes generalizing i with
  | nil => rfl
  | cons n nodes ih =>
      obtain ⟨hstart, hstop⟩ := h n (List.mem_cons_self ..)
      have hrest := ih (i := i + 1) fun m hm => h m (List.mem_cons_of_mem _ hm)
      rw [ByteArrayReaderWithLock.iovecLoop, Word64.sub_of_le hstart (by omega), filled,
        List.countP_cons]
      by_cases hfilled : n.start < n.stop
      · rw [if_pos (by omega), if_pos (decide_eq_true hfilled), List.length_cons, hrest]
        rfl
      · rw [if_neg (by omega), if_neg (by simpa using hfilled), hrest]
        rfl

namespace ByteArray

variable {b b' : ByteArray} {R W : Nat} {q : List UInt8}

/-- The reader makes a stretch for each node that holds unread bytes. -/
theorem Layout.iovec_length (h : b.Layout R W) :
    ∃ vec, ByteArrayReaderWithLock.iovec b = .ok vec ∧ vec.length = filled b.nodes := by
  have hw := h.writeNode_lt
  obtain ⟨stop, hend, hread, hstop, hreach⟩ := h.endOfReadNode
  have hoffsets : ∀ n ∈ b.nodes, n.start ≤ n.stop ∧ n.stop ≤ 1024 :=
    fun n hn => h.marks.offsets_le h.read_le_write hn
  have hbefore : filled (b.nodes.take b.readNode) = 0 :=
    filled_eq_zero h.content_eq_nil_of_exhausted
      fun n hn => (hoffsets n (List.mem_of_mem_take hn)).2
  have hafter : filled (b.nodes.drop stop) = 0 :=
    filled_eq_zero ((h.marks.drop (by omega)).content_eq_nil (.inl (by omega)))
      fun n hn => (hoffsets n (List.mem_of_mem_drop hn)).2
  have hsplit : b.nodes = b.nodes.take b.readNode ++ (b.nodes.take stop).drop b.readNode ++
      b.nodes.drop stop := by
    rw [take_append_visited hread.le, List.take_append_drop]
  have hcount := congrArg filled hsplit
  rw [filled_append, filled_append, hbefore, hafter, Nat.zero_add, Nat.add_zero] at hcount
  refine ⟨_, iovec_of_endOfReadNode hend (by omega), ?_⟩
  rw [iovecLoop_length fun _ => h.visited_offsets, hcount]

/-- What a successful write sends. -/
theorem Holds.write_sent {limit : Nat} (h : Holds limit b q) {answer : Answer Nat} {count : Nat}
    {sent : List UInt8} {writeCompleted : Bool} (hanswer : Stub.sendmsg answer = .ok (some count))
    (hwrite : SocketIO.write .reader b answer = .ok (.ok (b', sent, writeCompleted))) :
    sent = q.take count := by
  obtain ⟨vec, hvec, hgather, -⟩ := h.reader_iovec
  rw [ SocketIO.write, hanswer] at hwrite
  simp only [ByteArray2IOVec.iovec, hvec, hgather, bind, Except.bind] at hwrite
  split at hwrite
  · cases hwrite
  · cases hwrite
    rfl

end ByteArray

namespace TcpConnection

variable {c c' : TcpConnection}

/-- A call of `handleOut` when the socket is writable. -/
def handleWritable (socket : WritableSocket) (c : TcpConnection) :
    Except Fault TcpConnection := do
  let converted := TcpChannelConversion.readBufferConvert
  let vec ← converted.io.iovec (c.channel.get converted.array)
  c.handleOut (socket.answer vec)

/-- `sendmsg` accepts at least one byte, and the bytes that it accepts are those sent. -/
def SendsSome (socket : WritableSocket) (c : TcpConnection) : Prop :=
  ∃ vec count, ByteArrayReaderWithLock.iovec c.channel.readArray = .ok vec ∧
    Stub.sendmsg (socket.answer vec) = .ok (some count) ∧ 1 ≤ count ∧
      ∀ c', c.handleWritable socket = .ok c' →
        c'.history.accepted = c.history.accepted ++ c.channel.readArray.unread.take count

/-! ## What a call sends -/

variable {q : List UInt8} {socket : WritableSocket}

theorem handleOut_accepted {answer : Answer Nat} {count : Nat}
    (h : ByteArray.Holds ByteArray.memoryLimit c.channel.readArray q)
    (hanswer : Stub.sendmsg answer = .ok (some count)) (hok : c.handleOut answer = .ok c') :
    c'.history.accepted = c.history.accepted ++ q.take count := by
  cases handleOut_ok hok with
  | finished wheel b sent hwrite => rw [← h.write_sent hanswer hwrite]; rfl
  | closed wheel b sent hwrite => rw [← h.write_sent hanswer hwrite]; rfl
  | unfinished wheel b sent hwrite => rw [← h.write_sent hanswer hwrite]; rfl
  | reset wheel e hstub =>
      rw [hanswer] at hstub
      cases hstub
  | limited wheel e hstub =>
      rw [hanswer] at hstub
      cases hstub

/-- A call sends bytes exactly if the unread bytes lie in no more nodes than the kernel
takes stretches. -/
theorem sendsSome_iff (h : ByteArray.Holds ByteArray.memoryLimit c.channel.readArray q)
    (hunread : q ≠ []) :
    c.SendsSome socket ↔ filled c.channel.readArray.nodes ≤ uioMaxIov := by
  obtain ⟨vec, hvec, -, hcapacity⟩ := h.reader_iovec
  have hpos : 0 < capacity vec := by
    rw [hcapacity]
    exact List.length_pos_iff.mpr hunread
  have hlength : vec.length = filled c.channel.readArray.nodes := by
    obtain ⟨-, -, R, W, hlayout⟩ := h
    obtain ⟨vec', hvec', hlength⟩ := hlayout.iovec_length
    rw [hvec] at hvec'
    cases hvec'
    exact hlength
  rw [← hlength]
  constructor
  · rintro ⟨vec', count, hvec', hanswer, -, -⟩
    rw [hvec] at hvec'
    cases hvec'
    by_contra hmany
    rw [socket.refuses vec (Nat.not_le.mp hmany)] at hanswer
    cases hanswer
  · intro hfew
    obtain ⟨count, hanswer, hsome, -⟩ := socket.accepts vec hfew hpos
    have hsendmsg : Stub.sendmsg (socket.answer vec) = .ok (some count) := by
      rw [hanswer]
      rfl
    refine ⟨vec, count, hvec, hsendmsg, hsome, ?_⟩
    intro c' hok
    obtain ⟨vec', hvec', hok⟩ := Except.exists_of_bind_eq_ok hok
    obtain rfl : vec = vec' := by
      change ByteArrayReaderWithLock.iovec c.channel.readArray = _ at hvec'
      rw [hvec] at hvec'
      injection hvec'
    rw [handleOut_accepted h hsendmsg hok, h.1]

/-- A socket that accepts one byte at a time. -/
def oneByte : WritableSocket where
  answer vec :=
    if uioMaxIov < vec.length then .failed .EMSGSIZE else .done (min 1 (capacity vec))
  refuses _ h := if_pos h
  accepts vec hfew hpos := ⟨min 1 (capacity vec), if_neg (Nat.not_lt.mpr hfew), by omega, by omega⟩

/-- A connection whose `m_readArray` is `b`. -/
def sending (b : ByteArray) : TcpConnection :=
  { makeTcpConnection Epoll.new (fun _ => .done ()) none 1 5 with
    channel := ⟨ByteArray.new, b⟩ }

/-- An array with one byte. -/
theorem sendsSome_iff_one : ∃ b, b.Reachable ∧ b.unread = [7] ∧
    ((sending b).SendsSome oneByte ↔ filled (sending b).channel.readArray.nodes ≤ uioMaxIov) := by
  have hrun : (Run.final (ByteArray.step fun b (_ : Unit) => .ok b) ByteArray.new
      [.call (.put [7])]).map ByteArray.unread = .ok [7] := by decide +kernel
  obtain ⟨b, hb, hunread⟩ := Except.exists_of_map_eq_ok hrun
  have hreachable : b.Reachable := ⟨[.put [7]], hb⟩
  exact ⟨b, hreachable, hunread,
    sendsSome_iff (c := sending b) hreachable.holds (by rw [hunread]; exact List.cons_ne_nil 7 [])⟩

/-- A mebibyte and one byte do not fit into 1024 nodes. -/
theorem sendsSome_fails : ∃ b, b.Reachable ∧ b.unread = List.replicate (2 ^ 20 + 1) 0 ∧
    ¬(sending b).SendsSome oneByte := by
  obtain ⟨data, hdata⟩ : ∃ data : List UInt8, data = List.replicate (2 ^ 20 + 1) 0 := ⟨_, rfl⟩
  have hlength : data.length = 2 ^ 20 + 1 := by rw [hdata, List.length_replicate]
  obtain ⟨b, hok, hholds⟩ := (ByteArray.new_holds ByteArray.memoryLimit).writeRaw data
    ByteArray.memoryLimit_le (by rw [hlength]; decide)
  have hreachable : b.Reachable := ByteArray.reachable_iff_within.mpr
    ⟨[.put data], ByteArray.new_put (by rw [hlength]; decide) hok⟩
  have hunread : b.unread = data := hholds.1
  refine ⟨b, hreachable, by rw [hunread, hdata], ?_⟩
  obtain ⟨-, -, R, W, hlayout⟩ := hholds
  obtain ⟨vec, hvec, hcount⟩ := hlayout.iovec_length
  have hmany : uioMaxIov < vec.length := by
    have hle := content_length_le fun n hn =>
      (hlayout.marks.offsets_le hlayout.read_le_write hn).2
    rw [← hlayout.unread_eq_content, hunread, hlength, ← hcount] at hle
    simp only [uioMaxIov]
    omega
  rintro ⟨vec', count, hvec', hanswer, -, -⟩
  obtain rfl : vec = vec' := by
    change ByteArrayReaderWithLock.iovec b = _ at hvec'
    rw [hvec] at hvec'
    injection hvec'
  rw [oneByte.refuses vec hmany] at hanswer
  cases hanswer

/-! ## A call that sends nothing -/

/-- The byte array, the interest in `EPOLLOUT` and the bytes accepted are as before. -/
structure Stuck (c c' : TcpConnection) : Prop where
  readArray : c'.channel.readArray = c.channel.readArray
  epollEvent : c'.epollEvent = c.epollEvent
  accepted : c'.history.accepted = c.history.accepted

/-- Step lemma: with too many nodes, a call changes nothing. -/
theorem handleWritable_stuck (h : ByteArray.Holds ByteArray.memoryLimit c.channel.readArray q)
    (hmany : uioMaxIov < filled c.channel.readArray.nodes)
    (hok : c.handleWritable socket = .ok c') : c.Stuck c' := by
  obtain ⟨-, -, R, W, hlayout⟩ := h
  obtain ⟨vec, hvec, hlength⟩ := hlayout.iovec_length
  obtain ⟨vec', hvec', hok⟩ := Except.exists_of_bind_eq_ok hok
  obtain rfl : vec = vec' := by
    change ByteArrayReaderWithLock.iovec c.channel.readArray = _ at hvec'
    rw [hvec] at hvec'
    injection hvec'
  have hrefused := socket.refuses vec (hlength ▸ hmany)
  have hnothing {b : ByteArray} {sent : List UInt8} {writeCompleted : Bool}
      (hwrite : SocketIO.write .reader c.channel.readArray (socket.answer vec) =
        .ok (.ok (b, sent, writeCompleted))) :
      b = c.channel.readArray ∧ sent = [] ∧ writeCompleted = false := by
    rw [hrefused] at hwrite
    cases hwrite
    exact ⟨rfl, rfl, rfl⟩
  cases handleOut_ok hok with
  | finished wheel b sent hwrite => cases (hnothing hwrite).2.2
  | closed wheel b sent hwrite => cases (hnothing hwrite).2.2
  | unfinished wheel b sent hwrite =>
      obtain ⟨rfl, rfl, -⟩ := hnothing hwrite
      exact ⟨rfl, rfl, List.append_nil _⟩
  | reset wheel e hstub =>
      rw [hrefused] at hstub
      cases hstub
  | limited wheel e hstub =>
      rw [hrefused] at hstub
      cases hstub

/-- Run lemma: with too many nodes, any number of calls change nothing. -/
theorem final_stuck (h : ByteArray.Holds ByteArray.memoryLimit c.channel.readArray q)
    (hmany : uioMaxIov < filled c.channel.readArray.nodes) {sockets : List WritableSocket}
    (hok : Run.final (fun c socket => handleWritable socket c) c sockets = .ok c') :
    c.Stuck c' := by
  refine Run.final_invariant (J := c.Stuck) ?_ ⟨rfl, rfl, rfl⟩ hok
  intro d socket d' hstuck hstep
  have hnext := handleWritable_stuck (q := q) (hstuck.readArray ▸ h)
    (hstuck.readArray ▸ hmany) hstep
  exact ⟨hnext.readArray.trans hstuck.readArray, hnext.epollEvent.trans hstuck.epollEvent,
    hnext.accepted.trans hstuck.accepted⟩

end TcpConnection

end Netpp
