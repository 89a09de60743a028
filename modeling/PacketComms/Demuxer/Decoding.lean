import PacketComms.RoundTrip

namespace PacketComms

theorem answersOf_split {used sizes : List Nat} {rest : List IoResult}
    (same : answersOf used ++ rest = answersOf sizes ++ [.error]) :
    ∃ left, rest = answersOf left ++ [.error] ∧ sizes = used ++ left := by
  induction used generalizing sizes with
  | nil => exact ⟨sizes, same, rfl⟩
  | cons n used ih =>
    cases sizes with
    | nil => simp [answersOf] at same
    | cons k sizes =>
      simp only [answersOf, List.map_cons, List.cons_append, List.cons.injEq, IoResult.count.injEq] at same
      obtain ⟨rfl, same⟩ := same
      obtain ⟨left, rest, split⟩ := ih same
      exact ⟨left, rest, by rw [split, List.cons_append]⟩

theorem answersOf_exhausted {used sizes : List Nat} (same : answersOf used = answersOf sizes ++ [.error]) : False := by
  have padded : answersOf used ++ [] = answersOf sizes ++ [.error] := by rw [List.append_nil, same]
  obtain ⟨left, rest, -⟩ := answersOf_split padded
  simp at rest

theorem answersOf_append (used left : List Nat) : answersOf (used ++ left) = answersOf used ++ answersOf left :=
  List.map_append

theorem positives_append (used left : List Nat) : positives (used ++ left) = positives used + positives left :=
  List.countP_append

namespace PacketDemuxer

/-- How a call of `readBytes` ends that starts without an error noted: `used` are the answers it took, each for at least
one byte unless nothing was left. -/
inductive ReadEnds (size : Nat) (input buffer : List Byte) (answers : List IoResult) : ReadDone → Prop
  | filled (got more used rest) : input = got ++ more → got.length = size → answers = answersOf used ++ rest →
      (more ≠ [] → positives used ≤ got.length) →
      ReadEnds size input buffer answers ⟨buffer ++ got, 0, more, false, .returned true, rest⟩
  | failed (got more used rest) : input = got ++ more → got.length < size → answers = answersOf used ++ .error :: rest →
      (more ≠ [] → positives used ≤ got.length) →
      ReadEnds size input buffer answers ⟨buffer ++ got, size - got.length, more, true, .returned false, rest⟩
  | starved (got more used) : input = got ++ more → got.length < size → answers = answersOf used →
      ReadEnds size input buffer answers ⟨buffer ++ got, size - got.length, more, false, .running, []⟩

/-- One turn of the loop before the end. -/
theorem ReadEnds.turn {size n : Nat} {part behind buffer : List Byte} {answers : List IoResult} {r : ReadDone}
    (ends : ReadEnds (size - part.length) behind (buffer ++ part) answers r) (fits : part.length ≤ size)
    (took : behind ≠ [] → positives [n] ≤ part.length) :
    ReadEnds size (part ++ behind) buffer (.count n :: answers) r := by
  have counts {got more : List Byte} {used : List Nat} (split : behind = got ++ more)
      (few : more ≠ [] → positives used ≤ got.length) (left : more ≠ []) :
      positives (n :: used) ≤ (part ++ got).length := by
    have first := took (by simp [split, left])
    have rest := few left
    have sum := positives_append [n] used
    rw [List.singleton_append] at sum
    rw [List.length_append]
    omega
  cases ends with
  | filled got more used rest split length same few =>
    rw [List.append_assoc]
    exact .filled (part ++ got) more (n :: used) rest (by rw [split, List.append_assoc])
      (by rw [List.length_append, length]; omega) (by rw [same]; rfl) (counts split few)
  | failed got more used rest split length same few =>
    rw [List.append_assoc, Nat.sub_sub, ← List.length_append]
    exact .failed (part ++ got) more (n :: used) rest (by rw [split, List.append_assoc])
      (by rw [List.length_append]; omega) (by rw [same]; rfl) (counts split few)
  | starved got more used split length same =>
    rw [List.append_assoc, Nat.sub_sub, ← List.length_append]
    exact .starved (part ++ got) more (n :: used) (by rw [split, List.append_assoc])
      (by rw [List.length_append]; omega) (by rw [same]; rfl)

theorem ReadEnds.done (input buffer : List Byte) (answers : List IoResult) :
    ReadEnds 0 input buffer answers ⟨buffer, 0, input, false, .returned true, answers⟩ := by
  have filled : ReadEnds 0 input buffer answers ⟨buffer ++ [], 0, input, false, .returned true, answers⟩ :=
    .filled [] input [] answers rfl rfl rfl (fun _ => Nat.le_refl 0)
  rwa [List.append_nil] at filled

theorem readBytes_ends (size : Nat) (input buffer : List Byte) (answers : List IoResult) :
    ReadEnds size input buffer answers (readBytes false false size input buffer answers) := by
  induction answers generalizing size input buffer with
  | nil =>
    by_cases missing : size > 0
    · have starved : ReadEnds size input buffer [] ⟨buffer ++ [], size, input, false, .running, []⟩ :=
        .starved [] input [] rfl missing rfl
      rw [List.append_nil] at starved
      simpa [readBytes, missing] using starved
    · obtain rfl : size = 0 := by omega
      simpa [readBytes] using ReadEnds.done input buffer []
  | cons answer answers ih =>
    by_cases missing : size > 0
    · cases answer with
      | error =>
        have failed : ReadEnds size input buffer (.error :: answers)
            ⟨buffer ++ [], size, input, true, .returned false, answers⟩ :=
          .failed [] input [] answers rfl missing rfl (fun _ => Nat.le_refl 0)
        rw [List.append_nil] at failed
        simpa [readBytes, missing] using failed
      | count n =>
        simp only [readBytes, missing, and_self, if_true, Bool.false_eq_true, and_false, if_false]
        have length : (input.take (min n size)).length = min (min n size) input.length := List.length_take
        have whole : input.take (min n size) ++ input.drop (input.take (min n size)).length = input :=
          List.prefix_iff_eq_append.mp (List.take_prefix _ _)
        have turned := (ih (size - (input.take (min n size)).length) (input.drop (input.take (min n size)).length)
          (buffer ++ input.take (min n size))).turn (n := n) (by omega) (fun behind => ?_)
        · rwa [whole] at turned
        · have longer : (input.take (min n size)).length < input.length := by
            by_contra all
            exact behind (List.drop_eq_nil_of_le (by omega))
          cases n with
          | zero => exact Nat.zero_le _
          | succ n =>
            have one : positives [n + 1] = 1 := rfl
            omega
    · obtain rfl : size = 0 := by omega
      simpa [readBytes] using ReadEnds.done input buffer (answer :: answers)

/-- How a call of `receivePacket` ends that finds data and starts without an error noted. -/
inductive PacketEnds (input : List Byte) (argument : ComPacket) (answers : List IoResult) : Received → Prop
  | received (p : ComPacket) (more used rest) : p.Receivable → input = p.frame ++ more →
      answers = answersOf used ++ rest → (more ≠ [] → positives used ≤ p.frame.length) →
      PacketEnds input argument answers ⟨p, more, false, .returned true, rest⟩
  | failed (part more used rest) : (∀ p : ComPacket, p.data.length < 2 ^ 32 → ¬ p.frame <+: part) →
      input = part ++ more → answers = answersOf used ++ .error :: rest → (more ≠ [] → positives used ≤ part.length) →
      PacketEnds input argument answers ⟨argument, more, true, .returned false, rest⟩
  | starved (more used) : answers = answersOf used →
      PacketEnds input argument answers ⟨argument, more, false, .running, []⟩
  | aborted (type : PacketType) (size : UInt32) (r : Received) : htonl type ++ htonl size <+: input →
      type = IdManager.invalidPacket ∨ ¬ size.toNat < 2 ^ 31 → r.transportError = false → r.status = .aborted →
      PacketEnds input argument answers r

theorem receivePacket_ends (input : List Byte) (argument : ComPacket) (answers : List IoResult) :
    PacketEnds input argument answers (receivePacket true false input argument answers) := by
  have short {part : List Byte} (few : part.length < 8) (p : ComPacket) : ¬ p.frame <+: part := by
    intro begins
    have bound := begins.length_le
    rw [ComPacket.frame_length] at bound
    omega
  have first := readBytes_ends 4 input [] answers
  simp only [receivePacket, Bool.true_eq_false, if_false, transportErrorOnZeroBytes]
  generalize readBytes false false 4 input [] answers = t at first
  cases first with
  | failed typed more used rest split length same few =>
    exact .failed typed more used rest (fun p _ => short (by omega) p) split same few
  | starved typed more used split length same => exact .starved more used same
  | filled typed behind used rest split four same few =>
    obtain ⟨type, rfl⟩ : ∃ type, typed = htonl type := ⟨ntohl typed, (htonl_ntohl four).symm⟩
    have second := readBytes_ends 4 behind [] rest
    dsimp only [List.nil_append]
    generalize readBytes false false 4 behind [] rest = s at second
    cases second with
    | failed sized more used' rest' split' length same' few' =>
      have parts : (htonl type ++ sized).length < 8 := by rw [List.length_append, htonl_length]; omega
      refine .failed (htonl type ++ sized) more (used ++ used') rest' (fun p _ => short parts p) ?_ ?_ ?_
      · rw [split, split', List.append_assoc]
      · rw [same, same', answersOf_append, List.append_assoc]
      · intro left
        have first := few (by simp [split', left])
        have second := few' left
        rw [positives_append, List.length_append]
        omega
    | starved sized more used' split' length same' =>
      exact .starved more (used ++ used') (by rw [same, same', answersOf_append])
    | filled sized behind' used' rest' split' four' same' few' =>
      obtain ⟨size, rfl⟩ : ∃ size, sized = htonl size := ⟨ntohl sized, (htonl_ntohl four').symm⟩
      have header : htonl type ++ htonl size <+: input := by
        rw [split, split', ← List.append_assoc]
        exact List.prefix_append _ _
      simp only [ntohl_htonl, List.nil_append, ComPacket.ofSize_eq]
      by_cases small : size.toNat < 2 ^ 31
      · simp only [small, if_true, List.length_replicate]
        have third := readBytes_ends size.toNat behind' [] rest'
        generalize readBytes false false size.toNat behind' [] rest' = d at third
        cases third with
        | failed part more used'' rest'' split'' length same'' few'' =>
          refine .failed (htonl type ++ (htonl size ++ part)) more (used ++ (used' ++ used'')) rest'' ?_ ?_ ?_ ?_
          · rintro p bound ⟨tail, begins⟩
            rw [ComPacket.frame_eq, List.append_assoc, List.append_assoc] at begins
            obtain ⟨-, begins⟩ := List.append_inj begins rfl
            obtain ⟨sizes, begins⟩ := List.append_inj begins rfl
            have sameSize := ComPacket.sizeField_toNat bound
            rw [htonl_injective sizes] at sameSize
            have lengths := congrArg List.length begins
            rw [List.length_append] at lengths
            omega
          · simp [split, split', split'']
          · simp [same, same', same'', answersOf_append]
          · intro left
            have first := few (by simp [split', split'', left])
            have second := few' (by simp [split'', left])
            have third := few'' left
            simp only [positives_append, List.length_append]
            omega
        | starved part more used'' split'' length same'' =>
          exact .starved more (used ++ (used' ++ used'')) (by simp [same, same', same'', answersOf_append])
        | filled data more used'' rest'' split'' length same'' few'' =>
          by_cases invalid : type = IdManager.invalidPacket
          · simp only [invalid, if_true]
            exact .aborted type size _ header (Or.inl invalid) rfl rfl
          · simp only [invalid, if_false, List.nil_append]
            have sizeField : ComPacket.sizeField ⟨type, data⟩ = size := by
              simp [ComPacket.sizeField, length]
            have frame : ComPacket.frame ⟨type, data⟩ = htonl type ++ (htonl size ++ data) := by
              rw [ComPacket.frame_eq, sizeField]
            have receivable : ComPacket.Receivable ⟨type, data⟩ := ⟨invalid, by rw [length]; exact small⟩
            refine .received ⟨type, data⟩ more (used ++ (used' ++ used'')) rest'' receivable ?_ ?_ ?_
            · simp [frame, split, split', split'']
            · simp [same, same', same'', answersOf_append]
            · intro left
              have first := few (by simp [split', split'', left])
              have second := few' (by simp [split'', left])
              have third := few'' left
              rw [frame]
              simp only [positives_append, List.length_append]
              omega
      · simp only [small, if_false]
        exact .aborted type size _ header (Or.inr small) rfl rfl

/-- Successive calls of `receivePacket`, each with the answer of `readyForReading` and the packet it is called with,
until one notes an error or does not return. -/
def receiveCalls : List (Bool × ComPacket) → Received → List Received
  | [], _ => []
  | call :: calls, r =>
    let r' := receivePacket call.1 r.transportError r.input call.2 r.rest
    if r'.transportError = false ∧ (r'.status = .returned true ∨ r'.status = .returned false) then
      r' :: receiveCalls calls r'
    else [r']

/-- What the calls that returned true have returned. -/
def packetsOf (results : List Received) : List ComPacket :=
  (results.filter (·.status = .returned true)).map (·.packet)

theorem packetsOf_received {r : Received} {results : List Received} (returned : r.status = .returned true) :
    packetsOf (r :: results) = r.packet :: packetsOf results := by
  simp [packetsOf, returned]

theorem packetsOf_other {r : Received} {results : List Received} (other : r.status ≠ .returned true) :
    packetsOf (r :: results) = packetsOf results := by
  simp [packetsOf, other]

/-- The list goes on behind a result that is not the last one. -/
theorem getLast?_tail {r last : Received} {results : List Received} (ended : (r :: results).getLast? = some last)
    (other : r.transportError ≠ last.transportError) : results.getLast? = some last := by
  cases results with
  | nil =>
    cases Option.some.inj ended
    exact absurd rfl other
  | cons next results => rwa [List.getLast?_cons_cons] at ended

theorem getLast?_cons_of_some {r last : Received} {results : List Received} (ended : results.getLast? = some last) :
    (r :: results).getLast? = some last := by
  rw [List.getLast?_cons, ended, Option.getD_some]

/-- A call that returns false gives its argument back, has consumed nothing if it timed out, and has otherwise
noted the error. -/
theorem receivePacket_refuses (ready transportError : Bool) (input : List Byte) (argument : ComPacket)
    (answers : List IoResult)
    (refused : (receivePacket ready transportError input argument answers).status = .returned false) :
    (receivePacket ready transportError input argument answers).packet = argument ∧
    (ready = false → (receivePacket ready transportError input argument answers).input = input ∧
      (receivePacket ready transportError input argument answers).transportError = transportError) ∧
    (ready = true → (receivePacket ready transportError input argument answers).transportError = true) := by
  cases ready with
  | false => simp [receivePacket]
  | true =>
    cases transportError with
    | true =>
      have stops :
          receivePacket true true input argument answers = ⟨argument, input, true, .returned false, answers⟩ := by
        cases answers <;> simp [receivePacket, readBytes]
      simp [stops]
    | false =>
      have ends := receivePacket_ends input argument answers
      generalize receivePacket true false input argument answers = r at ends refused ⊢
      cases ends with
      | received | starved => cases refused
      | failed => simp
      | aborted _ _ _ _ _ _ status => simp [status] at refused

theorem receiveCalls_exact {calls : List (Bool × ComPacket)} {r last : Received} (flag : r.transportError = false)
    (ended : (receiveCalls calls r).getLast? = some last) (noted : last.transportError = true) :
    ∃ stream, r.input = stream ++ last.input ∧ (∀ p ∈ packetsOf (receiveCalls calls r), p.Receivable) ∧
      ∃ part, stream = ComPacket.code.stream (packetsOf (receiveCalls calls r)) ++ part ∧
        ∀ p : ComPacket, p.data.length < 2 ^ 32 → ¬ p.frame <+: part := by
  induction calls generalizing r with
  | nil => cases ended
  | cons call calls ih =>
    obtain ⟨ready, argument⟩ := call
    cases ready with
    | false =>
      simp only [receiveCalls, flag, receivePacket, and_self, or_true, if_true] at ended ⊢
      rw [packetsOf_other (by simp)]
      exact ih rfl (getLast?_tail ended (by simp [noted]))
    | true =>
      have ends := receivePacket_ends r.input argument r.rest
      simp only [receiveCalls, flag] at ended ⊢
      generalize receivePacket true false r.input argument r.rest = r' at ends ended ⊢
      cases ends with
      | received p more used rest receivable split same few =>
        simp only [and_self, true_or, if_true] at ended ⊢
        obtain ⟨stream, split', valid, part, whole, incomplete⟩ := ih rfl (getLast?_tail ended (by simp [noted]))
        rw [packetsOf_received rfl]
        refine ⟨p.frame ++ stream, ?_, ?_, part, ?_, incomplete⟩
        · rw [split, show more = stream ++ last.input from split', List.append_assoc]
        · intro q member
          rcases List.mem_cons.mp member with rfl | later
          · exact receivable
          · exact valid q later
        · rw [PrefixCode.stream_cons, List.append_assoc, ← whole]
          rfl
      | failed part more used rest incomplete split same few =>
        simp only [Bool.true_eq_false, false_and, if_false, List.getLast?_singleton, Option.some.injEq] at ended ⊢
        subst ended
        rw [packetsOf_other (by simp)]
        exact ⟨part, split, by simp [packetsOf], part, rfl, incomplete⟩
      | starved more used same =>
        simp at ended
        rw [← ended] at noted
        cases noted
      | aborted type size r' header unsound calm status =>
        simp [status] at ended
        rw [← ended, calm] at noted
        cases noted

/-- With errors only at the end of the stream, enough calls consume all of it, and the last of them notes the error. -/
theorem receiveCalls_ends {calls : List (Bool × ComPacket)} {r : Received} {sizes : List Nat}
    (flag : r.transportError = false) (answers : r.rest = answersOf sizes ++ [.error]) (sound : SoundHeaders r.input)
    (enough : r.input.length ≤ positives sizes) (often : r.input.length < calls.countP (·.1)) :
    ∃ last, (receiveCalls calls r).getLast? = some last ∧ last.transportError = true ∧ last.input = [] := by
  induction calls generalizing r sizes with
  | nil => simp at often
  | cons call calls ih =>
    obtain ⟨ready, argument⟩ := call
    cases ready with
    | false =>
      simp only [receiveCalls, flag, receivePacket, and_self, or_true, if_true]
      obtain ⟨last, ended, after⟩ :=
        ih (r := { r with packet := argument, transportError := false, status := .returned false })
        rfl answers sound enough (by simpa using often)
      exact ⟨last, getLast?_cons_of_some ended, after⟩
    | true =>
      have ends := receivePacket_ends r.input argument r.rest
      simp only [receiveCalls, flag]
      generalize receivePacket true false r.input argument r.rest = r' at ends ⊢
      rw [answers] at ends
      generalize r.input = input at ends sound enough often
      cases ends with
      | received p more used rest receivable split same few =>
        obtain ⟨left, rfl, rfl⟩ := answersOf_split same.symm
        subst split
        rw [positives_append, List.length_append] at enough
        rw [List.countP_cons_of_pos (by rfl), List.length_append, ComPacket.frame_length] at often
        have supply : more.length ≤ positives left := by
          by_cases left' : more = []
          · simp [left']
          · have used := few left'
            omega
        obtain ⟨last, ended, after⟩ := ih (r := ⟨p, more, false, .returned true, answersOf left ++ [.error]⟩) rfl rfl
          (sound.tail receivable) supply (by dsimp only; omega)
        simp only [and_self, true_or, if_true]
        exact ⟨last, getLast?_cons_of_some ended, after⟩
      | failed part more used rest incomplete split same few =>
        obtain ⟨left, none, rfl⟩ := answersOf_split same.symm
        have all : left = [] := by
          cases left with
          | nil => rfl
          | cons n left => simp [answersOf] at none
        subst all split
        refine ⟨_, rfl, rfl, ?_⟩
        by_contra behind
        have used := few behind
        have some : 0 < more.length := List.length_pos_iff.mpr behind
        rw [List.append_nil, List.length_append] at enough
        omega
      | starved more used same => exact (answersOf_exhausted same.symm).elim
      | aborted type size r' header unsound calm status =>
        obtain ⟨valid, small⟩ := sound [] type size (by simp) header
        rcases unsound with invalid | large
        · exact absurd invalid valid
        · exact absurd small large

/-- The first `k` of endless calls. -/
def firstCalls (waits : Nat → Bool) (arguments : Nat → ComPacket) (k : Nat) : List (Bool × ComPacket) :=
  (List.range k).map (fun i => (waits i, arguments i))

theorem countP_firstCalls (waits : Nat → Bool) (arguments : Nat → ComPacket) (k : Nat) :
    (firstCalls waits arguments k).countP (·.1) = positives (firstAnswers (fun i => (waits i).toNat) k) := by
  simp only [firstCalls, firstAnswers, positives, List.countP_map]
  refine List.countP_congr (fun i _ => ?_)
  cases answer : waits i <;> simp [answer]

/-- The decoder is exact. Against a stream that breaks off at any byte, however its reads are fragmented and its calls
are timed, all of it is consumed in the end; the packets returned are then its complete frames, and so they are
wherever else a read fails. A call that returns false changes neither its argument nor, unless the
error is noted, the place in the stream. -/
theorem decoding_exact (stream : List Byte) (sound : SoundHeaders stream) (sizes : Nat → Nat) (fair : Fair sizes)
    (waits : Nat → Bool) (often : Fair (fun i => (waits i).toNat)) (arguments : Nat → ComPacket) :
    (∃ n, ∀ m k, n ≤ m → n ≤ k → ∃ last,
      (receiveCalls (firstCalls waits arguments k)
        ⟨{}, stream, false, .returned true, answersOf (firstAnswers sizes m) ++ [.error]⟩).getLast? = some last ∧
      last.transportError = true ∧ last.input = []) ∧
    (∀ calls answers last, (receiveCalls calls ⟨{}, stream, false, .returned true, answers⟩).getLast? = some last →
      last.transportError = true → ∃ consumed, stream = consumed ++ last.input ∧
        ComPacket.code.LongestIn (packetsOf (receiveCalls calls ⟨{}, stream, false, .returned true, answers⟩))
          consumed) ∧
    (∀ ready transportError input argument answers r, receivePacket ready transportError input argument answers = r →
      r.status = .returned false → r.packet = argument ∧
      (ready = false → r.input = input ∧ r.transportError = transportError) ∧
      (r.input ≠ input → r.transportError = true)) := by
  refine ⟨?_, ?_, ?_⟩
  · obtain ⟨n₁, enough⟩ := fair.positives_unbounded stream.length
    obtain ⟨n₂, calls⟩ := often.positives_unbounded (stream.length + 1)
    refine ⟨max n₁ n₂, fun m k many long => receiveCalls_ends rfl rfl sound (enough m (by omega)) ?_⟩
    rw [countP_firstCalls]
    exact calls k (by omega)
  · intro calls answers last ended noted
    obtain ⟨consumed, split, valid, part, whole, incomplete⟩ := receiveCalls_exact rfl ended noted
    refine ⟨consumed, split, ?_⟩
    rw [whole]
    refine ComPacket.code.longestIn_of_tail (fun p member => ?_) incomplete
    have small := (valid p member).2
    show p.data.length < 2 ^ 32
    omega
  · rintro ready transportError input argument answers r rfl refused
    obtain ⟨kept, timedOut, failed⟩ := receivePacket_refuses ready transportError input argument answers refused
    refine ⟨kept, timedOut, fun consumed => ?_⟩
    cases ready with
    | false => exact absurd (timedOut rfl).1 consumed
    | true => exact failed rfl

/-- A packet and the beginning of another one, read in twos, with every other wait timing out. -/
theorem decoding_exact_cut :
    (∃ n, ∀ m k, n ≤ m → n ≤ k → ∃ last,
      (receiveCalls (firstCalls (· % 2 == 1) (fun _ => {}) k)
        ⟨{}, [0, 0, 0, 2, 0, 0, 0, 1, 7, 0, 0, 0], false, .returned true,
          answersOf (firstAnswers (fun _ => 2) m) ++ [.error]⟩).getLast? = some last ∧
      last.transportError = true ∧ last.input = []) ∧
    (∀ calls answers last,
      (receiveCalls calls
        ⟨{}, [0, 0, 0, 2, 0, 0, 0, 1, 7, 0, 0, 0], false, .returned true, answers⟩).getLast? = some last →
      last.transportError = true → ∃ consumed, [0, 0, 0, 2, 0, 0, 0, 1, 7, 0, 0, 0] = consumed ++ last.input ∧
        ComPacket.code.LongestIn (packetsOf (receiveCalls calls
          ⟨{}, [0, 0, 0, 2, 0, 0, 0, 1, 7, 0, 0, 0], false, .returned true, answers⟩)) consumed) ∧
    (∀ ready transportError input argument answers r, receivePacket ready transportError input argument answers = r →
      r.status = .returned false → r.packet = argument ∧
      (ready = false → r.input = input ∧ r.transportError = transportError) ∧
      (r.input ≠ input → r.transportError = true)) := by
  have cut : ([0, 0, 0, 2, 0, 0, 0, 1, 7, 0, 0, 0] : List Byte) <+:
      ComPacket.code.stream [⟨2, [7]⟩, ⟨2, [7]⟩] := by decide
  have valid : ∀ p ∈ [(⟨2, [7]⟩ : ComPacket), ⟨2, [7]⟩], p.Receivable := by
    simp [ComPacket.Receivable, IdManager.invalidPacket]
  exact decoding_exact _ (SoundHeaders.of_frames valid cut) (fun _ => 2) (fun i => ⟨i, le_rfl, Nat.zero_lt_two⟩)
    (· % 2 == 1) (fun i => ⟨2 * i + 1, by omega, by simp⟩) (fun _ => {})

end PacketDemuxer

end PacketComms
