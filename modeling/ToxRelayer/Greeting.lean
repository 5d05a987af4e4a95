import ToxRelayer.MessageDispatch

/-!
# The sign of the protocol

A contact that has been silent is sent a numbered HELLO by the event loop.  The numbers
of each contact follow one another, no HELLO comes within the interval of anything else
said to or by the contact, and the other end takes every one of them for the sign of the
protocol.
-/

namespace ToxRelayer

open CString StepRun

def helloSignalInterval : ℤ := 16

/-- `hello_selfname_msg` of a node with this address -/
def helloSelfname (address : Bytes) : Bytes := (hexString address).val.take 8 ++ bytes "  METACOM"

/-- What `snprintf` puts into `hello_msg`. -/
def helloMsg (helloCounter : ℤ) (selfname : Bytes) : Bytes :=
  (bytes "/HELLO-" ++ formatInt 4 helloCounter ++ bytes "  " ++ selfname).take (128 - 1)

/-! ## The loop -/

structure ChatTxControl where
  lastMsgTx : ℤ
  helloCounter : ℤ

/-- A moment that counts as traffic with a contact; for a HELLO also the time of the turn
and the text. -/
structure Touch where
  contact : ℕ
  time : ℤ
  hello : Option (ℤ × Bytes)

/-- `maxFriends` is `max_friend_num`, the number of contacts at the start, which has to fit the
array `chat_tx_Control`; `main` does not look whether it does.  `touches` records what has
happened. -/
structure HelloState where
  chatTxControl : ℕ → ChatTxControl
  maxFriends : Fin (maxFriendNum + 1)
  selfname : Bytes
  touches : List Touch

/-- A turn of the event loop, a message from a contact or a line for one, and a change of
the own connection, each with the clock it reads. -/
inductive HelloEvent where
  | turn (connected : Bool) (curTime : ℤ) (getTime : ℕ → ℤ)
  | message (contact : Fin maxFriendNum) (getTime : ℤ)
  | connection (getTime : ℕ → ℤ)

namespace HelloState

def start (maxFriends : Fin (maxFriendNum + 1)) (address : Bytes) (curTime : ℤ) : HelloState where
  chatTxControl := fun i => if i < maxFriends.val then ⟨curTime, 1⟩ else ⟨0, 0⟩
  maxFriends := maxFriends
  selfname := helloSelfname address
  touches := []

/-- `last_msg_tx` of a contact is set. -/
def touch (s : HelloState) (contact : ℕ) (time : ℤ) : HelloState :=
  { s with
    chatTxControl := Function.update s.chatTxControl contact
      { s.chatTxControl contact with lastMsgTx := time }
    touches := s.touches ++ [⟨contact, time, none⟩] }

/-- One round of the HELLO loop. -/
def helloRound (connected : Bool) (curTime : ℤ) (getTime : ℕ → ℤ) (s : HelloState) (i : ℕ) :
    HelloState :=
  let control := s.chatTxControl i
  if helloSignalInterval < curTime - control.lastMsgTx ∧ connected = true then
    let helloCounter := control.helloCounter + 1
    { s with
      chatTxControl := Function.update s.chatTxControl i
        ⟨getTime i, if 1000 ≤ helloCounter then 1 else helloCounter⟩
      touches := s.touches ++
        [⟨i, getTime i, some (curTime, helloMsg control.helloCounter s.selfname)⟩] }
  else s

def step (s : HelloState) : HelloEvent → HelloState
  | .turn connected curTime getTime =>
      (List.range s.maxFriends).foldl (helloRound connected curTime getTime) s
  | .message contact getTime => s.touch contact getTime
  | .connection getTime =>
      (List.range s.maxFriends).foldl (fun s i => s.touch i (getTime i)) s

def run (s : HelloState) (events : List HelloEvent) : HelloState := events.foldl step s

def touchesOf (s : HelloState) (contact : ℕ) : List Touch :=
  s.touches.filter fun touch => touch.contact = contact

/-- The HELLOs sent to a contact. -/
def hellosTo (s : HelloState) (contact : ℕ) : List Bytes :=
  (s.touchesOf contact).filterMap fun touch => touch.hello.map Prod.snd

end HelloState

/-- A HELLO waits for the interval after what went before. -/
def Touch.Waits (before touch : Touch) : Prop :=
  ∀ hello ∈ touch.hello, before.time + helloSignalInterval < hello.1

/-! ## The text of a HELLO -/

theorem helloSelfname_length_le (address : Bytes) : (helloSelfname address).length ≤ 17 := by
  have hlength : (bytes "  METACOM").length = 9 := rfl
  rw [helloSelfname, List.length_append, List.length_take, hlength]
  omega

theorem helloMsg_eq {helloCounter : ℤ} (hcounter : helloCounter.natAbs < 10 ^ 4)
    {selfname : Bytes} (hselfname : selfname.length ≤ 17) :
    helloMsg helloCounter selfname =
        bytes "/HELLO-" ++ formatInt 4 helloCounter ++ bytes "  " ++ selfname ∧
      (helloMsg helloCounter selfname).length ≤ 127 := by
  have hnumber := formatInt_length_le 4 (by norm_num) hcounter
  have hhead : (bytes "/HELLO-").length = 7 := rfl
  have hgap : (bytes "  ").length = 2 := rfl
  refine ⟨?_, List.length_take_le _ _⟩
  apply List.take_of_length_le
  simp only [List.length_append, hhead, hgap]
  omega

/-! ## One contact -/

/-- What the loop keeps of a contact: its HELLOs are numbered, and each of them has waited. -/
structure Greeted (contact : ℕ) (greeted : Bool) (first : Touch) (name : Bytes)
    (s : HelloState) : Prop where
  named : s.selfname = name
  counter : greeted = true →
    (s.chatTxControl contact).helloCounter = ((s.hellosTo contact).length % 999 : ℕ) + 1
  numbered : s.hellosTo contact = (List.range (s.hellosTo contact).length).map fun k =>
    helloMsg ((k % 999 : ℕ) + 1) name
  silent : greeted = false → s.hellosTo contact = []
  waits : (first :: s.touchesOf contact).IsChain Touch.Waits
  last : (first :: s.touchesOf contact).getLast?.map Touch.time =
    some (s.chatTxControl contact).lastMsgTx

section

variable {s : HelloState} {contact : ℕ} {greeted : Bool} {first : Touch} {name : Bytes}

/-- Nothing that concerns the contact has changed. -/
theorem Greeted.of_same {s' : HelloState} (hs : Greeted contact greeted first name s)
    (hcontrol : s'.chatTxControl contact = s.chatTxControl contact)
    (hselfname : s'.selfname = s.selfname) (htouches : s'.touchesOf contact = s.touchesOf contact) :
    Greeted contact greeted first name s' := by
  have hhellos : s'.hellosTo contact = s.hellosTo contact := by
    rw [HelloState.hellosTo, htouches]
    rfl
  refine ⟨hselfname.trans hs.named, ?_, ?_, ?_, ?_, ?_⟩
  · rw [hcontrol, hhellos]
    exact hs.counter
  · rw [hhellos]
    exact hs.numbered
  · rw [hhellos]
    exact hs.silent
  · rw [htouches]
    exact hs.waits
  · rw [htouches, hcontrol]
    exact hs.last

theorem touchesOf_append_self {before : List Touch} {touch : Touch}
    (htouch : touch.contact = contact) :
    (before ++ [touch]).filter (fun touch => touch.contact = contact) =
      before.filter (fun touch => touch.contact = contact) ++ [touch] := by
  rw [List.filter_append, List.filter_singleton, decide_eq_true htouch]
  rfl

theorem touchesOf_append_other {before : List Touch} {touch : Touch}
    (htouch : touch.contact ≠ contact) :
    (before ++ [touch]).filter (fun touch => touch.contact = contact) =
      before.filter (fun touch => touch.contact = contact) := by
  rw [List.filter_append, List.filter_singleton, decide_eq_false htouch]
  exact List.append_nil _

/-- One touch more, after the one before it. -/
theorem Greeted.chain (hs : Greeted contact greeted first name s) {touch : Touch}
    (hwaits : ∀ hello ∈ touch.hello,
      (s.chatTxControl contact).lastMsgTx + helloSignalInterval < hello.1) :
    (first :: (s.touchesOf contact ++ [touch])).IsChain Touch.Waits := by
  rw [← List.cons_append, List.isChain_append]
  refine ⟨hs.waits, List.isChain_singleton _, ?_⟩
  intro before hbefore after hafter
  obtain rfl := Option.some.inj hafter
  have htime := hs.last
  rw [hbefore, Option.map_some, Option.some.injEq] at htime
  rw [Touch.Waits, htime]
  exact hwaits

theorem getLast?_cons_concat (touches : List Touch) (touch : Touch) :
    (first :: (touches ++ [touch])).getLast? = some touch := by
  rw [← List.cons_append, List.getLast?_concat]

theorem Greeted.touch (hs : Greeted contact greeted first name s) (other : ℕ) (time : ℤ) :
    Greeted contact greeted first name (s.touch other time) := by
  by_cases hother : other = contact
  · subst hother
    have htouches : (s.touch other time).touchesOf other =
        s.touchesOf other ++ [⟨other, time, none⟩] := touchesOf_append_self rfl
    have hhellos : (s.touch other time).hellosTo other = s.hellosTo other := by
      rw [HelloState.hellosTo, htouches, List.filterMap_append]
      exact List.append_nil _
    have hcontrol : (s.touch other time).chatTxControl other =
        { s.chatTxControl other with lastMsgTx := time } := Function.update_self _ _ _
    refine ⟨hs.named, ?_, ?_, ?_, ?_, ?_⟩
    · rw [hhellos, hcontrol]
      exact hs.counter
    · rw [hhellos]
      exact hs.numbered
    · rw [hhellos]
      exact hs.silent
    · rw [htouches]
      apply hs.chain
      rintro hello ⟨⟩
    · rw [htouches, hcontrol, getLast?_cons_concat]
      rfl
  · apply hs.of_same
    · exact Function.update_of_ne (Ne.symm hother) _ _
    · rfl
    · exact touchesOf_append_other hother

/-- A HELLO takes the number after the last one. -/
theorem Greeted.hello (hs : Greeted contact true first name s) (curTime time : ℤ)
    (hdue : helloSignalInterval < curTime - (s.chatTxControl contact).lastMsgTx) :
    let control := s.chatTxControl contact
    let helloCounter := control.helloCounter + 1
    Greeted contact true first name { s with
      chatTxControl := Function.update s.chatTxControl contact
        ⟨time, if 1000 ≤ helloCounter then 1 else helloCounter⟩
      touches := s.touches ++
        [⟨contact, time, some (curTime, helloMsg control.helloCounter s.selfname)⟩] } := by
  intro control helloCounter
  generalize hnext : ({ s with
      chatTxControl := Function.update s.chatTxControl contact
        ⟨time, if 1000 ≤ helloCounter then 1 else helloCounter⟩
      touches := s.touches ++ [⟨contact, time,
        some (curTime, helloMsg control.helloCounter s.selfname)⟩] } : HelloState) = s'
  have hcounter := hs.counter rfl
  have htouches : s'.touchesOf contact = s.touchesOf contact ++
      [⟨contact, time, some (curTime, helloMsg control.helloCounter s.selfname)⟩] := by
    rw [← hnext]
    exact touchesOf_append_self rfl
  have hhellos : s'.hellosTo contact =
      s.hellosTo contact ++ [helloMsg control.helloCounter s.selfname] := by
    rw [HelloState.hellosTo, htouches, List.filterMap_append]
    rfl
  have hcontrol : s'.chatTxControl contact =
      ⟨time, if 1000 ≤ helloCounter then 1 else helloCounter⟩ := by
    rw [← hnext]
    exact Function.update_self _ _ _
  have hselfname : s'.selfname = s.selfname := by
    rw [← hnext]
  refine ⟨hselfname.trans hs.named, fun _ => ?_, ?_, nofun, ?_, ?_⟩
  · rw [hcontrol, hhellos, List.length_append, List.length_singleton]
    simp only [helloCounter, control, hcounter]
    split <;> omega
  · rw [hhellos, List.length_append, List.length_singleton, List.range_succ, List.map_append,
      ← hs.numbered, List.map_singleton, hs.named]
    simp only [control, hcounter]
  · rw [htouches]
    apply hs.chain
    rintro hello ⟨⟩
    dsimp only
    omega
  · rw [htouches, hcontrol, getLast?_cons_concat]
    rfl

/-- A round for a contact sends it the next HELLO when it has been silent. -/
theorem Greeted.helloRound (hs : Greeted contact greeted first name s) (connected : Bool)
    (curTime : ℤ) (getTime : ℕ → ℤ) {other : ℕ} (hother : other = contact → greeted = true) :
    Greeted contact greeted first name (s.helloRound connected curTime getTime other) := by
  rw [HelloState.helloRound]
  dsimp only
  split
  · rename_i hdue
    by_cases hsame : other = contact
    · obtain rfl := hother hsame
      subst hsame
      exact hs.hello curTime (getTime other) hdue.1
    · apply hs.of_same
      · exact Function.update_of_ne (Ne.symm hsame) _ _
      · rfl
      · exact touchesOf_append_other hsame
  · exact hs

/-! ## Runs -/

theorem helloRound_maxFriends (connected : Bool) (curTime : ℤ) (getTime : ℕ → ℤ) (s : HelloState)
    (i : ℕ) : (s.helloRound connected curTime getTime i).maxFriends = s.maxFriends := by
  rw [HelloState.helloRound]
  dsimp only
  split <;> rfl

theorem Greeted.step (hs : Greeted contact greeted first name s)
    (hgreeted : greeted = decide (contact < s.maxFriends.val)) (event : HelloEvent) :
    Greeted contact greeted first name (s.step event) ∧
      (s.step event).maxFriends = s.maxFriends := by
  cases event with
  | turn connected curTime getTime =>
      have hrounds : ∀ rounds ≤ s.maxFriends.val, Greeted contact greeted first name
            ((List.range rounds).foldl (HelloState.helloRound connected curTime getTime) s) ∧
          ((List.range rounds).foldl (HelloState.helloRound connected curTime getTime)
            s).maxFriends = s.maxFriends := by
        intro rounds hrounds
        induction rounds with
        | zero => exact ⟨hs, rfl⟩
        | succ rounds ih =>
            obtain ⟨hkept, hmax⟩ := ih (by omega)
            rw [List.range_succ, List.foldl_append]
            refine ⟨hkept.helloRound connected curTime getTime ?_, ?_⟩
            · intro hsame
              rw [hgreeted, decide_eq_true_iff]
              omega
            · exact (helloRound_maxFriends _ _ _ _ _).trans hmax
      exact hrounds s.maxFriends le_rfl
  | message other getTime => exact ⟨hs.touch other getTime, rfl⟩
  | connection getTime =>
      have hrounds : ∀ contacts : List ℕ, Greeted contact greeted first name
            (contacts.foldl (fun s i => s.touch i (getTime i)) s) ∧
          (contacts.foldl (fun s i => s.touch i (getTime i)) s).maxFriends = s.maxFriends := by
        intro contacts
        induction contacts using List.reverseRecOn with
        | nil => exact ⟨hs, rfl⟩
        | append_singleton contacts i ih =>
            rw [List.foldl_append]
            exact ⟨ih.1.touch i (getTime i), ih.2⟩
      exact hrounds _

theorem Greeted.run (hs : Greeted contact greeted first name s)
    (hgreeted : greeted = decide (contact < s.maxFriends.val)) (events : List HelloEvent) :
    Greeted contact greeted first name (s.run events) := by
  induction events generalizing s with
  | nil => exact hs
  | cons event events ih =>
      obtain ⟨hnext, hmax⟩ := hs.step hgreeted event
      exact ih hnext (by rw [hmax, hgreeted])

end

theorem start_greeted (maxFriends : Fin (maxFriendNum + 1)) (address : Bytes) (curTime : ℤ)
    (contact : ℕ) :
    Greeted contact (decide (contact < maxFriends.val))
      ⟨contact, if contact < maxFriends.val then curTime else 0, none⟩
      (helloSelfname address) (HelloState.start maxFriends address curTime) where
  named := rfl
  counter := by
    intro hgreeted
    rw [decide_eq_true_iff] at hgreeted
    simp only [HelloState.start, hgreeted, if_true]
    rfl
  numbered := rfl
  silent := fun _ => rfl
  waits := List.isChain_singleton _
  last := by
    simp only [HelloState.start]
    split <;> rfl

/-- A contact of the start is sent the HELLOs 1 to 999 over and over, each of them more than
the interval after what went before; a later contact is sent none. -/
theorem hellos_numbered (maxFriends : Fin (maxFriendNum + 1)) (address : Bytes) (curTime : ℤ)
    (events : List HelloEvent) (contact : ℕ) :
    let s := (HelloState.start maxFriends address curTime).run events
    (s.hellosTo contact = (List.range (s.hellosTo contact).length).map fun k =>
        helloMsg ((k % 999 : ℕ) + 1) (helloSelfname address)) ∧
      (contact < maxFriends.val →
        (⟨contact, curTime, none⟩ :: s.touchesOf contact).IsChain Touch.Waits) ∧
      (maxFriends.val ≤ contact → s.hellosTo contact = []) := by
  intro s
  have hgreeted : Greeted contact (decide (contact < maxFriends.val)) _ _ s :=
    (start_greeted maxFriends address curTime contact).run rfl events
  refine ⟨hgreeted.numbered, ?_, ?_⟩
  · intro hcontact
    have hwaits := hgreeted.waits
    rw [if_pos hcontact] at hwaits
    exact hwaits
  · intro hcontact
    exact hgreeted.silent (decide_eq_false (not_lt.mpr hcontact))

/-! ## The other end -/

theorem helloSelfname_nulFree (address : Bytes) : (0 : UInt8) ∉ helloSelfname address := by
  intro hmem
  rcases List.mem_append.mp hmem with hname | htail
  · exact (hexString address).nulFree (List.mem_of_mem_take hname)
  · exact absurd htail (by decide)

/-- What the callback looks for in a HELLO. -/
theorem helloMsg_sign {helloCounter : ℤ} (hcounter : helloCounter.natAbs < 10 ^ 4)
    (address : Bytes) :
    let message := helloMsg helloCounter (helloSelfname address)
    (0 : UInt8) ∉ message ∧ message.head? = some slash ∧ bytes "/HELLO" <:+: message ∧
      bytes "METACOM" <:+: message := by
  intro message
  have hmessage : message = bytes "/HELLO" ++ (bytes "-" ++ formatInt 4 helloCounter ++
      bytes "  " ++ helloSelfname address) := by
    have heq := (helloMsg_eq hcounter (helloSelfname_length_le address)).1
    have hhead : bytes "/HELLO-" = bytes "/HELLO" ++ bytes "-" := by decide
    rw [hhead] at heq
    simpa only [List.append_assoc] using heq
  refine ⟨?_, ?_, ?_, ?_⟩
  · rw [hmessage]
    have hhead : (0 : UInt8) ∉ bytes "/HELLO" := by decide
    have hdash : (0 : UInt8) ∉ bytes "-" := by decide
    have hgap : (0 : UInt8) ∉ bytes "  " := by decide
    have hnumber : (0 : UInt8) ∉ formatInt 4 helloCounter :=
      fun hmem => (formatInt_free hmem).2.2 rfl
    simp only [List.mem_append, not_or]
    exact ⟨hhead, ⟨⟨hdash, hnumber⟩, hgap⟩, helloSelfname_nulFree address⟩
  · rw [hmessage]
    rfl
  · rw [hmessage]
    exact (List.prefix_append _ _).isInfix
  · rw [hmessage, helloSelfname]
    have htail : bytes "  METACOM" = bytes "  " ++ bytes "METACOM" := by decide
    rw [htail]
    simp only [← List.append_assoc]
    exact (List.suffix_append _ _).isInfix

/-- Every HELLO of every run is the sign of the protocol to a relay that welcomes its
sender: it turns the console to the sender, as every message of a contact does, and sets the
flag of that contact. -/
theorem hello_recognised {Ini : Type} (minIni : MinIni Ini) (maxFriends : Fin (maxFriendNum + 1))
    (address : Bytes) (curTime : ℤ) (events : List HelloEvent) (contact : ℕ) {r : Relayer Ini}
    {m : IncomingMessage}
    (hsent : m.string ∈ ((HelloState.start maxFriends address curTime).run events).hellosTo contact)
    {friendnumber : Fin maxFriendNum} {publicKey : Vector UInt8 32}
    (hwelcome : Welcome r m friendnumber publicKey) :
    cbFriendMessage minIni r m =
      ⟨{ r.turnedTo m friendnumber publicKey with
          relay := { r.relay with ctx := setMetaChatFlag minIni r.relay.ctx friendnumber } },
        .metacom⟩ := by
  have hgreeted := (start_greeted maxFriends address curTime contact).run rfl events
  rw [hgreeted.numbered, List.mem_map] at hsent
  obtain ⟨k, -, hstring⟩ := hsent
  have hcounter : (((k % 999 : ℕ) : ℤ) + 1).natAbs < 10 ^ 4 := by omega
  obtain ⟨hnul, hslash, hhello, hmetacom⟩ := helloMsg_sign hcounter address
  have hlength := (helloMsg_eq hcounter (helloSelfname_length_le address)).2
  rw [hstring] at hnul hslash hhello hmetacom hlength
  have htext : m.text.val = m.string := by
    apply IncomingMessage.text_of_short hnul
    rw [toxMaxMessageLength]
    omega
  have hsign : isHello m.text = true := by
    rw [isHello, Bool.and_eq_true, strstr_isSome_iff, strstr_isSome_iff, htext]
    exact ⟨hhello, hmetacom⟩
  rw [cbFriendMessage_welcome minIni hwelcome, handleMessage]
  dsimp only
  rw [← IncomingMessage.text, if_pos (by rw [htext]; exact hslash), if_pos hsign]
  rfl

/-- The second HELLO of a run reaches a relay that has not heard of the sender. -/
theorem hello_recognised_second :
    let minIni := iniStore .reliable
    let events := [HelloEvent.turn true 20 fun _ => 21, .message consoleContact 30,
      .turn true 60 fun _ => 60]
    let m := { signOfContact with
      string := helloMsg 2 (helloSelfname (List.replicate 38 7)) }
    m.string ∈ ((HelloState.start 1 (List.replicate 38 7) 0).run events).hellosTo 0 ∧
      cbFriendMessage minIni firstRelayer m =
        ⟨{ firstRelayer.turnedTo m consoleContact (.replicate 32 170) with
            relay := { firstRelayer.relay with
              ctx := setMetaChatFlag minIni firstRelayer.relay.ctx consoleContact } },
          .metacom⟩ := by
  intro minIni events m
  have hsent : m.string ∈
      ((HelloState.start 1 (List.replicate 38 7) 0).run events).hellosTo 0 := by decide
  have hlisted : (fileContainsKey m.blocklist (.replicate 32 170) none).1 ≠ 1 := by decide
  exact ⟨hsent, hello_recognised minIni 1 (List.replicate 38 7) 0 events 0 hsent
    ⟨rfl, rfl, rfl, hlisted⟩⟩

end ToxRelayer
