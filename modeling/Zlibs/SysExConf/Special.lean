import Zlibs.SysExConf.Standard

/-! What special requests may do, and with them every frame and packet. -/
namespace Zlibs.SysExConf
open Lib Midi

variable {η : Type} {device : Device η} {m : Members} {w t u : World η} {size : Nat}

/-- What is left to do after a special request is to send the response. -/
def Replies (w t : World η) : Prop := Serves w t ∧ Room 0 t

theorem Replies.after (h : Serves w t) (h' : Replies t u) : Replies w u := ⟨h.trans h'.1, h'.2⟩

theorem Replies.refl (h : Room 0 w) : Replies w w := ⟨.refl, h⟩

theorem replies_write (status : Status) (h : Room 0 w) :
    Replies w { w with ram := w.ram.write statusByte status.toByte } :=
  ⟨serves_write (by decide), h.started, h.room,
    (Members.byteAt_write_other (by decide)).trans h.start⟩

theorem room_pushed {byte : UInt8} {k : Nat} (h : Room (k + 1) w) :
    Room k { w with ram := w.ram.pushed byte } := by
  have h2 := h.started
  have hr := h.room
  have h0 : (w.ram.pushed byte).byteAt startByte = w.ram.byteAt startByte :=
    byteAt_pushedAll [byte] (by omega)
  exact ⟨Nat.le_succ_of_le h2, by simp only [Members.pushed_responseCounter]; omega,
    h0.trans h.start⟩

theorem serves_pushed {byte : UInt8} (h : Room 1 w) :
    Serves w { w with ram := w.ram.pushed byte } :=
  serves_pushedAll [byte] (by have := h.started; omega)

/-- Two more bytes, where there is room for them. -/
theorem push_push_replies {α : Type} {high low : UInt8} {k : SysExM η α} {Q : α → World η → Prop}
    {E : Fault → World η → Prop} (h : Room 2 w) (hk : ∀ t, Replies w t → wpf k Q E t) :
    wpf (push high >>= fun _ => push low >>= fun _ => k) Q E w := by
  have h1 : Room 1 { w with ram := w.ram.pushed high } := room_pushed h
  have hmax := h.room
  rw [wpf_bind, wpf_push (by omega), wpf_bind, wpf_push (Nat.lt_of_succ_lt h1.room)]
  exact hk _ ⟨(serves_pushed (h.mono (by omega))).trans (serves_pushed h1), room_pushed h1⟩

/-- A value appended by the handler leaves room for the end byte. -/
theorem appendCustom_replies {value : UInt16} (h : Room 0 w) :
    wpf (appendCustom value) (fun _ t => Replies w t) Never w := by
  rw [appendCustom, wpf_bind, wpf_get]
  apply wpf_ite
  · intro _
    exact .refl h
  · intro hroom
    have h2 : Room 2 w := ⟨h.started, not_le.mp hroom, h.start⟩
    exact push_push_replies h2 fun t ht => ht

theorem runCustom_replies {action : CustomAction η} {overflowed : Bool} (h : Room 0 w) :
    wpf (runCustom action overflowed) (fun _ t => Replies w t) Never w := by
  induction action generalizing w overflowed with
  | done result next =>
    exact ⟨⟨.refl, rfl, rfl, rfl, rfl, [], by simp⟩, h.started, h.room, h.start⟩
  | append value next ih =>
    rw [runCustom]
    refine wpf_bind_of (appendCustom_replies h) fun appended t ht => ?_
    exact wpf_of_never (ih appended ht.2) fun _ u hu => hu.after ht.1

theorem processCustomRequest_replies {request : CustomRequest} (h : Room 0 w) :
    wpf (processCustomRequest device request) (fun _ t => Replies w t) Never w := by
  rw [processCustomRequest, wpf_bind, wpf_get]
  apply wpf_ite
  · intro _
    have hack := replies_write .ack h
    rw [wpf_bind, wpf_setStatus, wpf_bind, wpf_log, wpf_bind, wpf_get]
    generalize hlogged : World.mk _ _ _ = logged
    have hl : Replies w logged := by
      subst hlogged
      exact Replies.after hack.1
        ⟨serves_event trivial trivial, hack.2.started, hack.2.room, hack.2.start⟩
    refine wpf_bind_of (runCustom_replies hl.2) ?_
    rintro ⟨result, overflowed⟩ t ht
    have hwt := ht.after hl.1
    apply wpf_ite
    · intro _
      rw [wpf_refuse]
      exact (replies_write _ ht.2).after hwt.1
    · intro _
      cases result with
      | ack => exact hwt
      | request =>
        rw [wpf_bind, wpf_setStatus]
        exact (replies_write _ ht.2).after hwt.1
      | _ =>
        rw [wpf_refuse]
        exact (replies_write _ ht.2).after hwt.1
  · intro _
    rw [wpf_bind, wpf_setStatus]
    exact replies_write _ h

theorem replyConstant_replies {value : UInt8} (h : Room 2 w) :
    wpf (replyConstant value) (fun _ t => Replies w t) Never w := by
  have h0 : Room 0 w := h.mono (by omega)
  have hack := replies_write .ack h0
  have h2 : Room 2 { w with ram := w.ram.write statusByte Status.ack.toByte } :=
    ⟨h.started, h.room, hack.2.start⟩
  rw [replyConstant, wpf_bind, wpf_get]
  apply wpf_ite
  · intro _
    rw [wpf_bind, wpf_setStatus]
    exact push_push_replies h2 fun t ht => ht.after hack.1
  · intro _
    rw [wpf_bind, wpf_setStatus]
    exact replies_write _ h0

/-- The connection as a special request leaves it. -/
def World.connected (w : World η) (connected : Bool) : World η :=
  { w with ram := { w.ram with configurationEnabled := connected } }

theorem processSpecialRequest_replies (h : Room 2 w) :
    wpf (processSpecialRequest device)
      (fun _ t => Replies (w.connected (connectionAfter (w.ram.byteAt wishByte)
        w.ram.configurationEnabled)) t) Never w := by
  have h0 : Room 0 w := h.mono (by omega)
  rw [processSpecialRequest, wpf_bind, wpf_readResponse (by decide)]
  unfold connectionAfter
  by_cases hclose : w.ram.byteAt wishByte = connClose
  · rw [if_pos hclose, if_pos hclose, wpf_bind, wpf_get]
    have hroom : Room 0 (w.connected false) := ⟨h0.started, h0.room, h0.start⟩
    apply wpf_ite
    · intro hc
      have hw : w.connected false = w := by
        simp only [Bool.not_eq_true'] at hc
        simp [World.connected, ← hc]
      rw [wpf_bind, wpf_setStatus, wpf_pure, hw]
      exact replies_write _ h0
    · intro _
      rw [wpf_bind, wpf_modifyMembers, wpf_bind, wpf_setStatus, wpf_pure]
      exact replies_write _ hroom
  rw [if_neg hclose, if_neg hclose]
  by_cases hopen : w.ram.byteAt wishByte = connOpen
  · rw [if_pos hopen, if_pos hopen, wpf_bind, wpf_modifyMembers, wpf_bind, wpf_setStatus, wpf_pure]
    have hroom : Room 0 (w.connected true) := ⟨h0.started, h0.room, h0.start⟩
    exact replies_write _ hroom
  rw [if_neg hopen, if_neg hopen]
  change wpf _ (fun _ t => Replies w t) _ _
  apply wpf_ite
  · intro _
    exact replyConstant_replies h
  intro _
  apply wpf_ite
  · intro _
    exact replyConstant_replies h
  intro _
  rw [wpf_bind, wpf_get]
  split
  · exact processCustomRequest_replies h0
  · rw [wpf_bind, wpf_setStatus, wpf_pure]
    exact replies_write _ h0

end Zlibs.SysExConf
