import K64.XfsPaths

/-! # Paths of the filesystem layer

`fs_normalize` of `k64_fs.c`, through which every path goes before it reaches K64XFS. Strings are
lists of bytes without the terminator. -/
namespace FsPaths

open XfsDirectory XfsPaths

def dot : UInt8 := 46

/-- `fs_copy` into an array of `size` bytes. -/
def fsCopy (size : ℕ) (src : List UInt8) : List UInt8 := src.take (size - 1)

def fsAppend (size : ℕ) (dst src : List UInt8) : List UInt8 := dst ++ src.take (size - 1 - dst.length)

/-- Takes the last component off. The slash before it stays. -/
def dropComponent (out : List UInt8) : List UInt8 :=
  if 1 < out.length then out.dropLast.rdropWhile (· != slash) else out

/-- What one component makes of the output so far. -/
def addComponent (outSize : ℕ) (out token : List UInt8) : Option (List UInt8) :=
  if 128 ≤ token.length then none
  else if token = [dot] then some out
  else if token = [dot, dot] then some (dropComponent out)
  else
    if 1 < out.length then
      if outSize ≤ out.length + 1 then none
      else if outSize ≤ out.length + 1 + token.length then none
      else some (out ++ slash :: token)
    else if outSize ≤ out.length + token.length then none
    else some (out ++ token)

/-- `fs_normalize`, with the current directory it starts from. -/
def fsNormalize (cwd path : List UInt8) (outSize : ℕ) : Option (List UInt8) :=
  let path := if path = [] then [dot] else path
  let tmp :=
    if path.head? = some slash then fsCopy 256 path
    else
      let tmp := fsCopy 256 cwd
      let tmp := if tmp = [slash] then tmp else fsAppend 256 tmp [slash]
      fsAppend 256 tmp path
  (tokens tmp).foldlM (addComponent outSize) [slash]

/-- A name that stands for an entry of the directory it is looked up in. -/
structure PlainName (name : List UInt8) : Prop where
  nonempty : name ≠ []
  noSlash : slash ∉ name
  short : name.length < 128
  not_dot : name ≠ [dot]
  not_dots : name ≠ [dot, dot]

variable {name dir : List UInt8}

theorem addComponent_root {outSize : ℕ} (h : PlainName name) (hroom : name.length + 1 < outSize) :
    addComponent outSize [slash] name = some (slash :: name) := by
  have hshort := h.short
  rw [addComponent, if_neg (by omega), if_neg h.not_dot, if_neg h.not_dots, if_neg (by simp),
    if_neg (by simp only [List.length_singleton]; omega)]
  rfl

theorem addComponent_plain {outSize : ℕ} {out : List UInt8} (h : PlainName name)
    (hout : 1 < out.length) (hroom : out.length + 1 + name.length < outSize) :
    addComponent outSize out name = some (out ++ slash :: name) := by
  have hshort := h.short
  rw [addComponent, if_neg (by omega), if_neg h.not_dot, if_neg h.not_dots, if_pos hout,
    if_neg (by omega), if_neg (by omega)]

theorem normalize_entry (cwd : List UInt8) (hdir : PlainName dir) (hname : PlainName name)
    (hlength : dir.length + name.length + 2 < 256) :
    fsNormalize cwd (slash :: dir ++ slash :: name) 256 = some (slash :: dir ++ slash :: name) := by
  have hcopy : fsCopy 256 (slash :: dir ++ slash :: name) = slash :: dir ++ slash :: name := by
    apply List.take_of_length_le
    simp only [List.length_append, List.length_cons]
    omega
  have htokens : tokens (slash :: dir ++ slash :: name) = [dir, name] := by
    rw [tokens_slash, show slash :: dir = [] ++ slash :: dir from rfl, tokens_slash, tokens_nil,
      tokens_word hdir.noSlash hdir.nonempty, tokens_word hname.noSlash hname.nonempty]
    rfl
  have hpos := List.length_pos_iff.mpr hdir.nonempty
  have hne : slash :: dir ++ slash :: name ≠ [] := List.cons_ne_nil _ _
  have hhead : (slash :: dir ++ slash :: name).head? = some slash := rfl
  simp only [fsNormalize, if_neg hne, if_pos hhead, hcopy, htokens]
  rw [List.foldlM_cons, addComponent_root hdir (by omega)]
  change (List.foldlM (addComponent 256) (slash :: dir) [name] : Option _) = _
  rw [List.foldlM_cons, addComponent_plain hname (by simp [hpos])
    (by simp only [List.length_cons]; omega)]
  rfl

end FsPaths
