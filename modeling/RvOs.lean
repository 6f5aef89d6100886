import RvOs.Proof.BootedInit
import RvOs.Proof.CopyCorrect
import RvOs.Proof.DeviceTree
import RvOs.Proof.DirectMap
import RvOs.Proof.FailedCall
import RvOs.Proof.MachineTrap
import RvOs.Proof.MapExact
import RvOs.Proof.Memmove
import RvOs.Proof.NoPanic
import RvOs.Proof.PrintHex
import RvOs.Proof.SoftwareWalk
import RvOs.Proof.UserLink
import RvOs.Proof.UserRegions
import RvOs.Proof.WriteDelivers
