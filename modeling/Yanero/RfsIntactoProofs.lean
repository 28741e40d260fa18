import Yanero.RfsCrearProofs

/-! # Files that stay

    A file whose slot and blocks keep their bytes is the same file afterwards
    (`Intacto`): the same inode, blocks and bytes, and for a directory the same
    listing.  It is what a request owes to the files it is not about. -/

namespace Rfs

open Arboles Palabras Tramos

/-- The file of an inode has the same inode, blocks and bytes in both images. -/
structure Intacto (fs fs' : Ext2) (y : Nat) : Prop where
  blockSize : fs'.sb.blockSize = fs.sb.blockSize
  igual : (leerInodo fs' y).Igual (leerInodo fs y)
  sitios : ∀ k ps, Vivo (esquema fs.sb) (fs.bloquesDe y) k ps →
    nodo (buscarBloque fs') (leerInodo fs' y).iBlock k ps
      = nodo (buscarBloque fs) (leerInodo fs y).iBlock k ps
  bytes : ∀ b, b < fs.bloquesDe y * fs.sb.blockSize →
    byteDe fs' (leerInodo fs' y) b = byteDe fs (leerInodo fs y) b

section Intacto

variable {fijo : Nat → Prop} {fs fs' fs'' : Ext2} {x y n : Nat} {inodo : Inode}
  {dss : Nat → List Dir}

theorem cantPunteros_congr (h : fs'.sb.blockSize = fs.sb.blockSize) :
    fs'.sb.cantPunteros = fs.sb.cantPunteros := by
  unfold Superblock.cantPunteros
  rw [h]

/-- A 32-bit size has no more blocks than three levels map. -/
theorem rango_bloquesDe (fs : Ext2) (x : Nat) : EnRango fs.sb (fs.bloquesDe x) :=
  enRango_cantBloques fs.sb (leerInodo_iSize_lt fs x)

/-- A file stays when its slot and the blocks it owns do. -/
theorem Consistente.intacto (h : Consistente fijo fs) (hy : fs.EnUso y) (hm : MismaForma fs fs')
    (higual : (leerInodo fs' y).Igual (leerInodo fs y))
    (hdisco : ∀ k ps, Vivo (esquema fs.sb) (fs.bloquesDe y) k ps → ∀ o, o / fs.sb.blockSize
      = nodo (buscarBloque fs) (leerInodo fs y).iBlock k ps → fs'.disco o = fs.disco o) :
    Intacto fs fs' y := by
  have hmano := h.enMano hy
  have hsitio : ∀ k ps, Vivo (esquema fs.sb) (fs.bloquesDe y) k ps →
      nodo (buscarBloque fs') (leerInodo fs' y).iBlock k ps
        = nodo (buscarBloque fs) (leerInodo fs y).iBlock k ps := by
    intro k ps hv
    rw [nodo_raices (higual.iBlock k hv.valido.raiz)]
    refine nodo_congr (fun k ps hv _ pos hpos => ?_) _ _ hv
    exact buscarBloque_congr h.geometria hm (hmano.dato hv).1.1 hpos fun o ho => hdisco k ps hv o ho
  refine ⟨hm.blockSize, higual, hsitio, fun b hb => ?_⟩
  have hq : b / fs.sb.blockSize < fs.bloquesDe y := Nat.div_lt_of_lt_mul (by rwa [Nat.mul_comm])
  have hv := (camino_hoja (rango_bloquesDe fs y) hq).1
  rw [byteDe, byteDe, hojaDe, hojaDe, cantPunteros_congr hm.blockSize, hm.blockSize, hsitio _ _ hv]
  exact hdisco _ _ hv _ (bloque_de (Nat.mod_lt b (blockSize_pos fs.sb)))

/-- The file has the blocks it had. -/
theorem Intacto.bloquesDe (h : Intacto fs fs' y) : fs'.bloquesDe y = fs.bloquesDe y := by
  rw [Ext2.bloquesDe, Ext2.bloquesDe, h.blockSize, h.igual.iSize]

theorem Intacto.esquema (h : Intacto fs fs' y) : esquema fs'.sb = esquema fs.sb := by
  rw [Rfs.esquema, Rfs.esquema, cantPunteros_congr h.blockSize]

/-- Its data is in the same blocks. -/
theorem Intacto.hojas (h : Intacto fs fs' y) {m : Nat} (hm : m < fs.bloquesDe y) :
    hojaDe fs' (leerInodo fs' y) m = hojaDe fs (leerInodo fs y) m := by
  rw [hojaDe, hojaDe, cantPunteros_congr h.blockSize]
  exact h.sitios _ _ (camino_hoja (rango_bloquesDe fs y) hm).1

theorem Inode.Igual.trans {a b c : Inode} (h : a.Igual b) (h' : b.Igual c) : a.Igual c :=
  ⟨h.iMode.trans h'.iMode, h.iSize.trans h'.iSize, h.iLinksCount.trans h'.iLinksCount,
    fun k hk => (h.iBlock k hk).trans (h'.iBlock k hk)⟩

/-- Two changes that do not touch it. -/
theorem Intacto.trans (h : Intacto fs fs' y) (h' : Intacto fs' fs'' y) : Intacto fs fs'' y := by
  refine ⟨h'.blockSize.trans h.blockSize, h'.igual.trans h.igual, fun k ps hv => ?_, fun b hb => ?_⟩
  · rw [h'.sitios k ps (by rwa [h.esquema, h.bloquesDe]), h.sitios k ps hv]
  · rw [h'.bytes b (by rwa [h.bloquesDe, h.blockSize]), h.bytes b hb]

/-- It is read the same way. -/
theorem Intacto.enImagen (h : Intacto fs fs' y)
    (him : EnImagen fs (leerInodo fs y) (fs.bloquesDe y)) :
    EnImagen fs' (leerInodo fs' y) (fs.bloquesDe y) := by
  refine ⟨fun i hi => ?_, fun i hi o ho => ?_, by rw [h.blockSize]; exact him.blockSize⟩
  · rw [h.blockSize]
    exact him.rango i hi
  · rw [h.blockSize] at ho ⊢
    rw [h.hojas hi]
    exact him.bytes i hi o ho

/-- A directory that stays has its records. -/
theorem Intacto.directorio (h : Intacto fs fs' y)
    (hd : Directorio fs (leerInodo fs y) (fs.bloquesDe y) dss) :
    Directorio fs' (leerInodo fs' y) (fs.bloquesDe y) dss := by
  refine ⟨?_, fun i hi => ?_⟩
  · rw [h.igual.iSize, h.blockSize, hd.entero]
  · rw [h.blockSize]
    refine (hd.bloques i hi).congr fun b _ h2 => h.bytes b ?_
    exact lt_of_lt_of_le h2 (Nat.mul_le_mul_right _ hi)

/-- A directory lists the same. -/
theorem Intacto.listar (h : Intacto fs fs' y)
    (him : EnImagen fs (leerInodo fs y) (fs.bloquesDe y))
    (hd : Directorio fs (leerInodo fs y) (fs.bloquesDe y) dss) :
    Rfs.listar fs' y = Rfs.listar fs y := by
  rw [hd.listar him, Directorio.listar (h.enImagen him) (h.directorio hd)]

/-- A directory whose listing is stuck stays stuck. -/
theorem Intacto.atascado (h : Intacto fs fs' y)
    (ha : Atascado fs (leerInodo fs y) (fs.bloquesDe y)) :
    Atascado fs' (leerInodo fs' y) (fs.bloquesDe y) := by
  obtain ⟨i, hi, hrec, hfin⟩ := ha
  have hdir : dirDe (byteDe fs' (leerInodo fs' y)) (i * fs.sb.blockSize)
      = dirDe (byteDe fs (leerInodo fs y)) (i * fs.sb.blockSize) := by
    have htope : (i + 1) * fs.sb.blockSize ≤ fs.bloquesDe y * fs.sb.blockSize :=
      Nat.mul_le_mul_right _ hi
    rw [Nat.succ_mul] at htope
    exact dirDe_congr fun j hj => h.bytes _ (by omega)
  refine ⟨i, hi, ?_, ?_⟩
  · rw [h.blockSize, hdir, hrec]
  · rw [h.blockSize, hdir]
    exact hfin

/-- **WHAT IS READ** of a file that stays. -/
theorem Intacto.contenido (h : Intacto fs fs' y) :
    (leerInodo fs' y).iSize = (leerInodo fs y).iSize
      ∧ contenido fs' (leerInodo fs' y) 0 (leerInodo fs' y).iSize
        = contenido fs (leerInodo fs y) 0 (leerInodo fs y).iSize := by
  refine ⟨h.igual.iSize, ?_⟩
  rw [Rfs.contenido, Rfs.contenido, h.igual.iSize]
  refine List.map_congr_left fun b hb => h.bytes b ?_
  have hb' := List.mem_range'_1.mp hb
  have := (cantBloques_cotas (blockSize_pos fs.sb) (leerInodo fs y).iSize).1
  show b < cantBloques fs.sb.blockSize (leerInodo fs y).iSize * fs.sb.blockSize
  omega

/-- A write to the data of a file keeps the others. -/
theorem SoloHojas.intacto (h : Consistente fijo fs) (hx : fs.EnUso x) (hy : fs.EnUso y)
    (hne : y ≠ x) (hs : SoloHojas fs (leerInodo fs x) (fs.bloquesDe x) fs') :
    Intacto fs fs' y := by
  have hmano := h.enMano hx
  have hn := rango_bloquesDe fs x
  refine h.intacto hy hs.mismo.forma
    ((hmano.guardaHojas hn hs).leerInodo h.geometria ⟨hy.1, hy.2.1⟩) fun k ps hv o ho => ?_
  exact hs.fuera o fun m hm => ho ▸ hmano.ajeno_ne_hoja hn hy hne hv hm

end Intacto

end Rfs
