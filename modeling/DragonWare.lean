import DragonWare.Proofs.FrameInit
import DragonWare.Proofs.VgaCons
import DragonWare.Proofs.IoPorts
import DragonWare.Proofs.OneRunning
import DragonWare.Proofs.HandleBounds
import DragonWare.Proofs.Loader
import DragonWare.Proofs.FileReads
import DragonWare.Proofs.Elf
import DragonWare.Proofs.Printf
import DragonWare.Proofs.Idedrv
import DragonWare.Proofs.LoadedSpace
import DragonWare.Proofs.HeapBitmap
import DragonWare.Proofs.Terminated
import DragonWare.Proofs.TimeSlice
import DragonWare.Proofs.Names
import DragonWare.Proofs.Transfers
import DragonWare.Proofs.UserStrings
import DragonWare.Proofs.UserStores
import DragonWare.Proofs.LastHandle
import DragonWare.Proofs.ObjectHeap
import DragonWare.Proofs.Ports
import DragonWare.Proofs.DeviceRemoval
import DragonWare.Proofs.DeviceFrames
import DragonWare.Proofs.ThreadStacks
import DragonWare.Proofs.BootInfo
import DragonWare.Proofs.UserMappings
import DragonWare.Proofs.MmUtils
import DragonWare.Proofs.TempMaps
