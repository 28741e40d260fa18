import Yanero.Bucles
import Yanero.Teselado
import Yanero.Hermanas
import Yanero.Bytes
import Yanero.Corridas
import Yanero.Cadenas
import Yanero.Tramos
import Yanero.Rachas
import Yanero.RcTabla
import Yanero.RcParticiones
import Yanero.RcBuddy
import Yanero.RcMotor
import Yanero.RcConexiones
import Yanero.RcConexionesProofs
import Yanero.RcVista
import Yanero.RcMapaProofs
import Yanero.RcBuddyProofs
import Yanero.RcBuddyRunProofs
import Yanero.RcParticionesProofs
import Yanero.RcAltaProofs
import Yanero.RcBusquedaProofs
import Yanero.RcAjusteProofs
import Yanero.RcFinProofs
import Yanero.RcCompactarProofs
import Yanero.RcBarridoProofs
import Yanero.RcReglas
import Yanero.RcParticionesRunProofs
import Yanero.RcAsasProofs
import Yanero.RcAsasRunProofs
import Yanero.RcVisibleProofs
import Yanero.RcAlineaProofs
import Yanero.RcDesalojoProofs
import Yanero.RcEspacioProofs
import Yanero.RcIndices
import Yanero.RcIndicesProofs
import Yanero.RcClaves
import Yanero.RcClavesProofs
import Yanero.RcClavesBuddyProofs
import Yanero.RcCuidadoProofs
import Yanero.RcViejosProofs
import Yanero.RcBajasProofs
import Yanero.RcRetoqueProofs
import Yanero.RcAsignarProofs
import Yanero.Palabras
import Yanero.Bloques
import Yanero.FscSerial
import Yanero.RfsSerial
import Yanero.NipcProofs
import Yanero.NipcReaddirProofs
import Yanero.NipcLimitesProofs
import Yanero.NipcDominioProofs
import Yanero.NipcAnchos
import Yanero.NipcAnchosProofs
import Yanero.RfsGrupos
import Yanero.RfsInode
import Yanero.RfsDir
import Yanero.RfsArchivo
import Yanero.RfsPedidos
import Yanero.RfsReservaProofs
import Yanero.RfsPedirProofs
import Yanero.RfsCamino
import Yanero.RfsMarcoProofs
import Yanero.RfsTablaProofs
import Yanero.RfsAccesosProofs
import Yanero.RfsMapaProofs
import Yanero.RfsTaller
import Yanero.RfsTallerProofs
import Yanero.RfsTallerRunProofs
import Yanero.RfsLeyesProofs
import Yanero.RfsTruncarProofs
import Yanero.RfsVolcarProofs
import Yanero.RfsInodosProofs
import Yanero.RfsPathProofs
import Yanero.RfsSepararProofs
import Yanero.RfsContenidoProofs
import Yanero.RfsLeerProofs
import Yanero.RfsEntradasProofs
import Yanero.RfsEscribirProofs
import Yanero.RfsExtenderProofs
import Yanero.RfsSincro
import Yanero.RfsSincroProofs
import Yanero.RcAlDiaProofs
import Yanero.RcColocaProofs
import Yanero.Bitarray
import Yanero.BitarrayProofs
import Yanero.RcLargosProofs
import Yanero.FscCoherenciaProofs
import Yanero.FscSocketsProofs
import Yanero.RfsBorrarProofs
import Yanero.RfsSoltarProofs
import Yanero.RfsUnlinkProofs
import Yanero.RfsTomarProofs
import Yanero.RfsEntradasRunProofs
import Yanero.Arborescencia
import Yanero.RfsNombres
import Yanero.RfsVolumen
import Yanero.RfsNacerProofs
import Yanero.RfsAlterarProofs
import Yanero.RfsEnlacesProofs
import Yanero.RfsQuitarProofs
import Yanero.RfsMkdirProofs
import Yanero.RfsServidor
import Yanero.RfsMirarProofs
import Yanero.RfsRechazarProofs
import Yanero.Montaje
import Yanero.MontajeProofs
import Yanero.MontajeRunProofs
