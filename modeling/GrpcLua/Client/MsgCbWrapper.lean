import GrpcLua.Core.Status
import GrpcLua.Support.Runs
import Mathlib.Data.List.TakeWhile

/-!
# Client — MsgCbWrapper

`msg_cb_wrapper.lua`, which makes of the user's callback of messages the callback of strings that
the C++ module calls, and `CbWrapper::WrapLuaMsgCb`, which makes a status of what that one returns.

`Reports` is what is to come of the strings.  The wrapped callback returns nothing, so an error
never leaves it (`wrapLuaMsgCb_answer`), and the promise is kept where there is no error to report
(`reports_along_iff`).
-/

namespace GrpcLua
open Prog

namespace MsgCbWrapper
variable {Msg ω : Type} (decode : Bytes → Bytes → Option Msg) (msgType : Bytes)

/-- The error string of a message that cannot be decoded. -/
def errStr : Bytes := str "Failed to decode message " ++ msgType

/-- `on_msg_str(msg_type, msg_str, msg_cb)`: the message that `msg_cb` is called with, if it is
called, and the error string that is returned. -/
def onMsgStr (msgStr : Bytes) : Option Msg × Option Bytes :=
  match decode msgType msgStr with
  | some msg => (some msg, none)
  | none => (none, some (errStr msgType))

/-- `M.wrap(msg_cb, msg_type)`, called with `msgStr`.  It returns nothing, whatever `on_msg_str`
returns. -/
def wrap (msgStr : Bytes) : Option Msg × Option Bytes := ((onMsgStr decode msgType msgStr).1, none)

/-- `CbWrapper::WrapLuaMsgCb` of the wrapped callback; `msgCb` is what the user's callback does. -/
def wrapLuaMsgCb (msgCb : Msg → Reaction ω Status Status) (msgStr : Bytes) :
    Reaction ω Status Status :=
  match wrap decode msgType msgStr with
  | (some msg, luaErrStr) => (msgCb msg).answering (.ofLuaErrStr luaErrStr)
  | (none, luaErrStr) => .ret (.ofLuaErrStr luaErrStr)

/-- The wrapped callback answers OK, unless the user's callback raises. -/
theorem wrapLuaMsgCb_answer (msgCb : Msg → Reaction ω Status Status) (b : Bytes) :
    (wrapLuaMsgCb decode msgType msgCb b).answer = none ∨
      (wrapLuaMsgCb decode msgType msgCb b).answer = some .OK := by
  unfold wrapLuaMsgCb wrap onMsgStr
  cases decode msgType b with
  | none => exact .inr rfl
  | some msg =>
      simp only [Reaction.answer_answering, Status.ofLuaErrStr]
      cases (msgCb msg).answer with
      | none => exact .inl rfl
      | some _ => exact .inr rfl

/-- The calls of the user's callback that come of the strings. -/
def heard (strings : List Bytes) : List Msg := strings.filterMap fun b => (wrap decode msgType b).1

theorem heard_eq (strings : List Bytes) :
    heard decode msgType strings = strings.filterMap (decode msgType) := by
  unfold heard
  congr 1
  funext b
  unfold wrap onMsgStr
  cases decode msgType b <;> rfl

/-- A string that cannot be decoded is answered like one that can. -/
theorem wrapLuaMsgCb_undecoded (msgCb : Msg → Reaction ω Status Status) {b : Bytes}
    (h : decode msgType b = none) : wrapLuaMsgCb decode msgType msgCb b = .ret .OK := by
  simp only [wrapLuaMsgCb, wrap, onMsgStr, h, Status.ofLuaErrStr]

/-- A text that begins otherwise is no error string. -/
theorem errStr_ne {text : Bytes} (h : text.take 15 ≠ str "Failed to decod") :
    errStr msgType ≠ text := by
  rintro rfl
  apply h
  rw [errStr, List.take_append_of_le_length (by decide)]
  decide

/-! ### What is to come of the strings -/

/-- The string can be decoded. -/
abbrev Decodes (b : Bytes) : Prop := (decode msgType b).isSome = true

/-- The failure to decode is the status that the call ends with, and it has been told to the
callback of statuses or of errors, where one is `given`. -/
structure EndsInError (given : Bool) (status : Status) (told : List Status) : Prop where
  status : status = .internalError (errStr msgType)
  told : given = true → .internalError (errStr msgType) ∈ told

/-- The user has been called with the messages before the first string that cannot be decoded, and
if there is one then the call ends with its error. -/
structure Reports (given : Bool) (strings : List Bytes) (status : Status) (told : List Status) :
    Prop where
  heard : heard decode msgType strings =
    (strings.takeWhile fun b => Decodes decode msgType b).filterMap (decode msgType)
  error : (∃ b ∈ strings, ¬ Decodes decode msgType b) → EndsInError msgType given status told

variable {decode msgType} {given : Bool} {strings : List Bytes}

/-- Strings that can be decoded are reported, whatever is told. -/
theorem Reports.of_decodes (h : ∀ b ∈ strings, Decodes decode msgType b) (status : Status)
    (told : List Status) : Reports decode msgType given strings status told where
  heard := by rw [heard_eq, List.takeWhile_eq_self_iff.mpr (by simpa using h)]
  error := by
    rintro ⟨b, hb, hnot⟩
    exact absurd (h b hb) hnot

/-- **Runs.**  A process that hands on `strings`, at most one string in a step, and does not end in
the error of a string that cannot be decoded: they are reported exactly as long as each of them can
be decoded. -/
theorem reports_along_iff {σ ℓ : Type} {exec : ℓ → EStateM Exit σ Unit} (strings : σ → List Bytes)
    (status : σ → Status) (told : σ → List Status) {hands : σ → ℓ → Option Bytes} {I : σ → Prop}
    {A : σ → ℓ → Prop}
    (hstep : ∀ s l, I s → A s l →
      wp (exec l) (fun _ s' => I s' ∧ strings s' = strings s ++ (hands s l).toList)
        (fun _ s' => I s' ∧ strings s' = strings s ++ (hands s l).toList) s)
    (hlost : ∀ s l b, I s → A s l → hands s l = some b → decode msgType b = none →
      wp (exec l) (fun _ s' => ¬ EndsInError msgType given (status s') (told s'))
        (fun _ s' => ¬ EndsInError msgType given (status s') (told s')) s)
    {s : σ} {ls : List ℓ} (hI : I s) (hs : strings s = [])
    (hls : Process.Along exec A (.running s) ls) :
    (∀ pre, pre <+: ls → Reports decode msgType given
        (strings (Process.after exec (.running s) pre).state)
        (status (Process.after exec (.running s) pre).state)
        (told (Process.after exec (.running s) pre).state)) ↔
      Process.Along exec (fun s l => ∀ b ∈ hands s l, Decodes decode msgType b)
        (.running s) ls := by
  refine Process.along_iff (I := fun s => I s ∧ ∀ b ∈ strings s, Decodes decode msgType b)
    (Q := fun s => Reports decode msgType given (strings s) (status s) (told s)) (A := A)
    (P := fun s l => ∀ b ∈ hands s l, Decodes decode msgType b)
    (fun s hI => .of_decodes hI.2 _ _) ?_ ?_ (c := .running s) ⟨hI, by simp [hs]⟩ hls
  · -- A string that can be decoded leaves nothing to report.
    rintro s l ⟨hI, hall⟩ hl hP
    have hnext : ∀ s', I s' ∧ strings s' = strings s ++ (hands s l).toList →
        I s' ∧ ∀ b ∈ strings s', Decodes decode msgType b := by
      rintro s' ⟨hI', hstrings⟩
      refine ⟨hI', fun b hb => ?_⟩
      rw [hstrings] at hb
      rcases List.mem_append.mp hb with hb | hb
      · exact hall b hb
      · exact hP b (by simpa using hb)
    exact wp_mono (hstep s l hI hl) (fun _ => hnext) fun _ => hnext
  · -- One that cannot has been handed over, and the call does not end in its error.
    rintro s l ⟨hI, -⟩ hl hP
    obtain ⟨b, hb, hnot⟩ : ∃ b, hands s l = some b ∧ ¬ Decodes decode msgType b := by
      simpa using hP
    have hend : ∀ s', (I s' ∧ strings s' = strings s ++ (hands s l).toList) →
        ¬ EndsInError msgType given (status s') (told s') →
        ¬ Reports decode msgType given (strings s') (status s') (told s') := by
      rintro s' ⟨-, hstrings⟩ hno hr
      exact hno (hr.error ⟨b, by simp [hstrings, hb], hnot⟩)
    refine wp_mono (wp_and (hstep s l hI hl) (hlost s l b hI hl hb (by simpa [Decodes] using hnot)))
      ?_ ?_
    · exact fun _ s' h' => hend s' h'.1 h'.2
    · exact fun _ s' h' => hend s' h'.1 h'.2

end MsgCbWrapper

end GrpcLua
